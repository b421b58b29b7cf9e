import SynchrotronCD.Plugins.RoundTrip

/-!
# Documents that can be serialised

`from_value` takes it that a parsed value always has a JSON text. It has one if
every mapping key in it, at any depth and under any tag, is a string, a boolean or
a finite number (`toJson_isSome_iff`). A YAML key can also be null, a sequence, a
mapping, a tagged value or an infinite float. No check of a document looks at its
keys, so such a document gets as far as the serializer, and there the stream
panics (`parseStream_ne_panic_iff`).
-/

namespace SynchrotronCD

open Lib
open List (Forall₂)

namespace Value

/-- A key that JSON has a text for. -/
def isTextKey : Value → Bool
  | .string _ | .bool _ => true
  | .number n => Number.isFinite n
  | .null | .sequence _ | .mapping _ | .tagged _ _ => false

mutual

/-- Every mapping key in a value, however deep, has a text. -/
def textKeyed : Value → Bool
  | .sequence xs => textKeyedElems xs
  | .mapping kvs => textKeyedEntries kvs
  | .tagged _ v => textKeyed v
  | .null | .bool _ | .number _ | .string _ => true

def textKeyedElems : List Value → Bool
  | [] => true
  | x :: xs => textKeyed x && textKeyedElems xs

def textKeyedEntries : List (Value × Value) → Bool
  | [] => true
  | (k, v) :: kvs => k.isTextKey && textKeyed v && textKeyedEntries kvs

end

theorem textKeyedElems_iff {xs : List Value} :
    textKeyedElems xs = true ↔ ∀ x ∈ xs, x.textKeyed = true := by
  induction xs with
  | nil => simp [textKeyedElems]
  | cons x xs ih => rw [textKeyedElems, Bool.and_eq_true, ih, List.forall_mem_cons]

theorem textKeyedEntries_iff {kvs : List (Value × Value)} : textKeyedEntries kvs = true ↔
    ∀ p ∈ kvs, p.1.isTextKey = true ∧ p.2.textKeyed = true := by
  induction kvs with
  | nil => simp [textKeyedEntries]
  | cons p kvs ih =>
      obtain ⟨k, v⟩ := p
      rw [textKeyedEntries, Bool.and_eq_true, Bool.and_eq_true, ih, List.forall_mem_cons]

section

variable [FloatText]

theorem keyText_isSome_iff {k : Value} : (∃ s, keyText k = some s) ↔ k.isTextKey = true := by
  cases k with
  | null | sequence | mapping | tagged => simp [keyText, isTextKey]
  | string s => simp [keyText, isTextKey]
  | bool b => cases b <;> simp [keyText, isTextKey]
  | number n =>
      cases n with
      | posInt | negInt => simp [keyText, isTextKey, Number.isFinite]
      | float x => by_cases hx : x.isFinite = true <;> simp [keyText, isTextKey, Number.isFinite, hx]

/-- **A value has a JSON document exactly when every mapping key in it has a text.** -/
theorem toJson_isSome_iff (v : Value) : (∃ j, v.toJson = some j) ↔ v.textKeyed = true := by
  induction v using inductOnParts with
  | h v ih =>
      cases v with
      | null | bool | number | string => exact ⟨fun _ => rfl, fun _ => ⟨_, rfl⟩⟩
      | sequence xs =>
          rw [textKeyed, textKeyedElems_iff]
          refine ⟨?_, fun h => ?_⟩
          · rintro ⟨j, hj⟩ x hx
            obtain ⟨js, hjs, -⟩ := toJson_sequence_iff.mp hj
            obtain ⟨i, -, hi⟩ := exists_of_forall₂ hjs x hx
            exact (ih x hx).mp ⟨i, hi⟩
          · have hall : ∀ x ∈ xs, ∃ j, x.toJson = some j := fun x hx => (ih x hx).mpr (h x hx)
            obtain ⟨js, hjs⟩ := mapM_eq_some_of_forall hall
            exact ⟨.arr js, toJson_sequence_iff.mpr ⟨js, mapM_eq_some_iff.mp hjs, rfl⟩⟩
      | mapping kvs =>
          rw [textKeyed, textKeyedEntries_iff]
          refine ⟨?_, fun h => ?_⟩
          · rintro ⟨j, hj⟩ p hp
            obtain ⟨js, hjs, -⟩ := toJson_mapping_iff.mp hj
            obtain ⟨q, -, hkey, hval⟩ := exists_of_forall₂ hjs p hp
            exact ⟨keyText_isSome_iff.mp ⟨q.1, hkey⟩,
              (ih p.2 (List.mem_map_of_mem hp)).mp ⟨q.2, hval⟩⟩
          · have hall : ∀ p ∈ kvs, ∃ q, ((keyText p.1).bind fun key =>
                (toJson p.2).map (Prod.mk key)) = some q := by
              intro p hp
              obtain ⟨key, hkey⟩ := keyText_isSome_iff.mpr (h p hp).1
              obtain ⟨i, hi⟩ := (ih p.2 (List.mem_map_of_mem hp)).mpr (h p hp).2
              exact ⟨(key, i), by rw [hkey, Option.bind_some, hi, Option.map_some]⟩
            obtain ⟨js, hjs⟩ := mapM_eq_some_of_forall hall
            exact ⟨.obj js, by rw [toJson, entriesToJson_eq_mapM, hjs, Option.map_some]⟩
      | tagged t v =>
          rw [textKeyed, ← ih v (List.mem_singleton_self v), toJson]
          simp only [Option.map_eq_some_iff]
          exact ⟨fun ⟨_, i, hi, _⟩ => ⟨i, hi⟩, fun ⟨i, hi⟩ => ⟨_, i, hi, rfl⟩⟩

end

/-- The document has the fields that `parse_stream` asks for. -/
def hasRequiredFields (v : Value) : Bool :=
  ((v.get "apiVersion").bind asStr).isSome && ((v.get "kind").bind asStr).isSome
    && (metadataStr v "name").isSome

end Value

/-! ## Streams -/

section

variable [FloatText]

theorem fromValue_isSome_iff {v : Value} :
    (∃ b, ManifestBody.fromValue v = some b) ↔ v.textKeyed = true := by
  rw [← v.toJson_isSome_iff]
  unfold ManifestBody.fromValue ManifestBody.toVec
  simp only [Option.map_eq_some_iff]
  refine ⟨?_, ?_⟩
  · rintro ⟨b, bytes, ⟨j, hj, hbytes⟩, hb⟩
    exact ⟨j, hj⟩
  · rintro ⟨j, hj⟩
    exact ⟨_, _, ⟨j, hj, rfl⟩, rfl⟩

/-- What becomes of a document: rejected for a field, a panic, or a manifest. -/
theorem valueToManifest_cases (label : String) (i : Nat) (v : Value) :
    (v.hasRequiredFields = false ∧ ∃ e, valueToManifest label i v = .error (.error e)) ∨
      (v.hasRequiredFields = true ∧ v.textKeyed = false ∧
        ∃ msg, valueToManifest label i v = .error (.panic msg)) ∨
      (v.hasRequiredFields = true ∧ v.textKeyed = true ∧
        ∃ m, valueToManifest label i v = .ok m) := by
  unfold valueToManifest requiredStr Value.hasRequiredFields
  cases (v.get "apiVersion").bind Value.asStr with
  | none => exact .inl ⟨rfl, _, rfl⟩
  | some apiVersion =>
  cases (v.get "kind").bind Value.asStr with
  | none => exact .inl ⟨rfl, _, rfl⟩
  | some kind =>
  cases metadataStr v "name" with
  | none => exact .inl ⟨rfl, _, rfl⟩
  | some name =>
  cases hb : ManifestBody.fromValue v with
  | none =>
      have hv : ¬v.textKeyed = true := fun hv => by
        obtain ⟨b, hb'⟩ := fromValue_isSome_iff.mpr hv
        simp [hb] at hb'
      exact .inr (.inl ⟨rfl, by simpa using hv, _, rfl⟩)
  | some body => exact .inr (.inr ⟨rfl, fromValue_isSome_iff.mp ⟨body, hb⟩, _, rfl⟩)

end

/-- A document after which the loop goes on: empty, or with the required fields. -/
def Passes : Except String Value → Prop
  | .ok v => v.isNull = true ∨ v.hasRequiredFields = true
  | .error _ => False

/-- Whenever the loop gets as far as a document with the required fields, its keys have texts. -/
def ReachedTextKeyed (docs : List (Except String Value)) : Prop :=
  ∀ pre v post, docs = pre ++ .ok v :: post → (∀ d ∈ pre, Passes d) → v.isNull = false →
    v.hasRequiredFields = true → v.textKeyed = true

theorem reachedTextKeyed_nil : ReachedTextKeyed [] := by
  intro pre v post h
  simp at h

/-- After a document that stops the loop nothing is reached. -/
theorem reachedTextKeyed_of_stop {d : Except String Value} (hd : ¬Passes d)
    (docs : List (Except String Value)) : ReachedTextKeyed (d :: docs) := by
  intro pre v post h hpre hnull hfields
  cases pre with
  | nil =>
      obtain ⟨rfl, -⟩ := List.cons.inj h
      exact absurd (.inr hfields) hd
  | cons d' pre =>
      obtain ⟨rfl, -⟩ := List.cons.inj h
      exact absurd (hpre _ List.mem_cons_self) hd

/-- A document that lets the loop go on counts itself, unless it is empty. -/
theorem reachedTextKeyed_cons {v : Value} {docs : List (Except String Value)}
    (hv : Passes (.ok v)) : ReachedTextKeyed (.ok v :: docs) ↔
      (v.isNull = false → v.hasRequiredFields = true → v.textKeyed = true)
        ∧ ReachedTextKeyed docs := by
  refine ⟨fun h => ⟨?_, ?_⟩, fun ⟨hhead, htail⟩ => ?_⟩
  · exact h [] v docs rfl (by simp)
  · intro pre w post hdocs hpre
    have hall : ∀ d ∈ .ok v :: pre, Passes d := List.forall_mem_cons.mpr ⟨hv, hpre⟩
    exact h (.ok v :: pre) w post (by rw [hdocs, List.cons_append]) hall
  · intro pre w post hdocs hpre
    cases pre with
    | nil =>
        obtain ⟨hvw, -⟩ := List.cons.inj hdocs
        obtain rfl := Except.ok.inj hvw
        exact hhead
    | cons d pre =>
        have hrest := (List.cons.inj hdocs).2
        exact htail pre w post hrest (List.forall_mem_cons.mp hpre).2

section

variable [FloatText]

theorem parseDocs_ne_panic_iff (label : String) (docs : List (Except String Value)) (i : Nat) :
    (∀ msg, parseDocs label i docs ≠ .error (.panic msg)) ↔ ReachedTextKeyed docs := by
  induction docs generalizing i with
  | nil => exact ⟨fun _ => reachedTextKeyed_nil, fun _ msg h => by simp [parseDocs] at h⟩
  | cons d docs ih =>
      cases d with
      | error source =>
          have hstop : ¬Passes (.error source) := fun h => h
          exact ⟨fun _ => reachedTextKeyed_of_stop hstop docs, fun _ msg h => by simp [parseDocs] at h⟩
      | ok v =>
          by_cases hnull : v.isNull = true
          · have hskip : parseDocs label i (.ok v :: docs) = parseDocs label (i + 1) docs := by
              rw [parseDocs, if_pos hnull]
            rw [reachedTextKeyed_cons (.inl hnull), hskip, ih]
            simp [hnull]
          · have hrun : parseDocs label i (.ok v :: docs) = (do
                let m ← valueToManifest label i v
                let ms ← parseDocs label (i + 1) docs
                return m :: ms) := by rw [parseDocs, if_neg hnull]
            rw [hrun]
            have hnull' : v.isNull = false := by simpa using hnull
            rcases valueToManifest_cases label i v with ⟨hf, e, he⟩ | ⟨hf, ht, msg, he⟩ | ⟨hf, ht, m, hm⟩
            · have hstop : ¬Passes (.ok v) := by simp [Passes, hnull', hf]
              rw [he]
              exact ⟨fun _ => reachedTextKeyed_of_stop hstop docs,
                fun _ msg h => by simp [bind, Except.bind] at h⟩
            · rw [he, reachedTextKeyed_cons (.inr hf)]
              refine ⟨fun h => absurd rfl (h msg), fun h => ?_⟩
              simp [h.1 hnull' hf] at ht
            · rw [hm, reachedTextKeyed_cons (.inr hf), ← ih (i + 1)]
              simp only [ht, implies_true, true_and, bind, Except.bind, pure, Except.pure]
              cases parseDocs label (i + 1) docs with
              | error a => cases a <;> simp
              | ok ms => simp

/-- **Parsing does not panic exactly when every document with the required fields that
the loop reaches has a text for each of its mapping keys.** -/
theorem parseStream_ne_panic_iff (label : String) (docs : List (Except String Value)) :
    (∀ msg, parseStream label docs ≠ .error (.panic msg)) ↔ ReachedTextKeyed docs :=
  parseDocs_ne_panic_iff label docs 0

end

/-- A config map with a null key: `data: {~: x}`. -/
def nullKeyed : Value :=
  .mapping [(.string "apiVersion", .string "v1"), (.string "kind", .string "ConfigMap"),
    (.string "metadata", .mapping [(.string "name", .string "app")]),
    (.string "data", .mapping [(.null, .string "x")])]

/-- A config map with a null key passes the checks and panics in the serializer. -/
theorem parseStream_panics : ∃ label docs,
    @parseStream .ofBits label docs = .error (.panic "manifest body must be JSON-serializable") :=
  ⟨"app.yaml", [.ok nullKeyed], rfl⟩

end SynchrotronCD
