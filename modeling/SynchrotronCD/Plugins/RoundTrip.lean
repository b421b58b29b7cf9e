import SynchrotronCD.Plugins.JsonReader
import SynchrotronCD.Plugins.Manifest

/-!
# Bodies read back from their bytes

A body keeps a YAML value and its JSON text. The text is read back as the value
when JSON can express it (no tag, no infinity, string keys only), every float is
read as it was written, and the value is not nested too deeply for the reader.
In every other case what is read is something else, or nothing (`readsBack_iff`).

The argument goes through the parts of a value. A mapping is where it is not
obvious: the key texts are distinct, so the entry that an equal value has under a
text can only be the entry the text was made from.
-/

namespace SynchrotronCD

open Lib
open List (Forall₂)

namespace Value

/-! ## What the reader sees of a value -/

mutual

/-- How deep the document of a value is nested. -/
def depth : Value → Nat
  | .sequence xs => depthElems xs + 1
  | .mapping kvs => depthEntries kvs + 1
  | .tagged _ v => depth v + 1
  | _ => 0

def depthElems : List Value → Nat
  | [] => 0
  | x :: xs => max (depth x) (depthElems xs)

def depthEntries : List (Value × Value) → Nat
  | [] => 0
  | (_, v) :: kvs => max (depth v) (depthEntries kvs)

end

/-- A float stands somewhere in a value. -/
inductive HasFloat (x : F64) : Value → Prop
  | here : HasFloat x (.number (.float x))
  | part {v y : Value} (hy : y ∈ v.parts) (h : HasFloat x y) : HasFloat x v

/-- JSON can express the value, and its floats are read as they are. -/
structure Exact [JsonReader] (v : Value) : Prop where
  compatible : v.jsonCompatible = true
  floats : ∀ x : FiniteF64, HasFloat x.val v → JsonReader.readFloat x = some x

/-! ## Parts -/

theorem jsonCompatibleList_iff {xs : List Value} :
    jsonCompatibleList xs = true ↔ ∀ x ∈ xs, x.jsonCompatible = true := by
  induction xs with
  | nil => simp [jsonCompatibleList]
  | cons x xs ih => rw [jsonCompatibleList, Bool.and_eq_true, ih, List.forall_mem_cons]

theorem jsonCompatibleEntries_iff {kvs : List (Value × Value)} : jsonCompatibleEntries kvs = true ↔
    ∀ p ∈ kvs, (∃ s, p.1 = .string s) ∧ p.2.jsonCompatible = true := by
  induction kvs with
  | nil => simp [jsonCompatibleEntries]
  | cons p kvs ih =>
      obtain ⟨k, v⟩ := p
      rw [List.forall_mem_cons, ← ih]
      cases k with
      | string s => rw [jsonCompatibleEntries, Bool.and_eq_true]; simp
      | null | bool | number | sequence | mapping | tagged => simp [jsonCompatibleEntries]

/-- What JSON can express has string keys, none of them twice in a mapping. -/
theorem stringKeyed_of_compatible (v : Value) : v.jsonCompatible = true → v.StringKeyed := by
  induction v using inductOnParts with
  | h v ih =>
      intro h
      cases v with
      | null => exact .null
      | bool b => exact .bool b
      | number n => exact .number n
      | string s => exact .string s
      | sequence xs => exact .sequence fun x hx => ih x hx (jsonCompatibleList_iff.mp h x hx)
      | mapping kvs =>
          rw [jsonCompatible, Bool.and_eq_true, decide_eq_true_eq, jsonCompatibleEntries_iff] at h
          refine .mapping (fun p hp => (h.1 p hp).1) ?_
            fun p hp => ih p.2 (List.mem_map_of_mem hp) (h.1 p hp).2
          refine List.pairwise_map.mpr ((List.pairwise_filterMap.mp h.2).imp_of_mem ?_)
          intro p q hp hq hne heq
          obtain ⟨s, hs⟩ := (h.1 p hp).1
          have hp' : p.1.asStr = some s := by rw [hs]; rfl
          exact hne s hp' s (heq ▸ hp') rfl
      | tagged t v => simp [jsonCompatible] at h

/-- The texts of string keys. -/
theorem keys_of_strings {α : Type} {kvs : List (Value × Value)} {js : List (String × α)}
    (h : Forall₂ (fun p q => p.1 = .string q.1) kvs js) :
    kvs.filterMap (fun p => p.1.asStr) = js.map Prod.fst := by
  induction h with
  | nil => rfl
  | @cons p q kvs js hpq _ ih =>
      have hkey : p.1.asStr = some q.1 := by rw [hpq]; rfl
      rw [List.filterMap_cons, hkey, List.map_cons, ih]

theorem forall₂_of_beqList : ∀ {ws xs : List Value}, beqList ws xs = true →
    Forall₂ (fun w x => beq w x = true) ws xs
  | [], [], _ => .nil
  | w :: ws, x :: xs, h => by
      rw [beqList, Bool.and_eq_true] at h
      exact .cons h.1 (forall₂_of_beqList h.2)
  | [], _ :: _, h => by simp [beqList] at h
  | _ :: _, [], h => by simp [beqList] at h

theorem eq_string_of_beq {s : String} {k : Value} (h : beq (.string s) k = true) :
    k = .string s := by
  cases k <;> simp_all [beq]

theorem depthElems_of_forall₂ {xs : List Value} {js : List Doc}
    (h : Forall₂ (fun x j => j.depth = x.depth) xs js) : Json.depthElems js = depthElems xs := by
  induction h with
  | nil => rfl
  | cons hxj _ ih => rw [Json.depthElems, depthElems, hxj, ih]

theorem depthMembers_of_forall₂ {kvs : List (Value × Value)} {js : List (String × Doc)}
    (h : Forall₂ (fun p q => q.2.depth = p.2.depth) kvs js) :
    Json.depthMembers js = depthEntries kvs := by
  induction h with
  | nil => rfl
  | cons hpq _ ih => rw [Json.depthMembers, depthEntries, hpq, ih]

section

variable [JsonReader]

/-- A scalar that is no float. -/
theorem exact_scalar {v : Value} (hc : v.jsonCompatible = true) (hparts : v.parts = [])
    (hne : ∀ x, v ≠ .number (.float x)) : v.Exact := by
  refine ⟨hc, fun y hy => ?_⟩
  cases hy with
  | here => exact absurd rfl (hne y.val)
  | part hy _ => simp [hparts] at hy

theorem exact_sequence {xs : List Value} : (Value.sequence xs).Exact ↔ ∀ x ∈ xs, x.Exact := by
  refine ⟨fun h x hx => ?_, fun h => ?_⟩
  · exact ⟨jsonCompatibleList_iff.mp h.compatible x hx, fun y hy => h.floats y (.part hx hy)⟩
  · refine ⟨jsonCompatibleList_iff.mpr fun x hx => (h x hx).compatible, fun y hy => ?_⟩
    cases hy with
    | part hx hy => exact (h _ hx).floats y hy

/-- A mapping whose keys are strings, each written as the key of a member. -/
theorem exact_mapping {α : Type} {kvs : List (Value × Value)} {js : List (String × α)}
    (hkeys : Forall₂ (fun p q => p.1 = .string q.1) kvs js) (hnd : (js.map Prod.fst).Nodup)
    (h : ∀ p ∈ kvs, p.2.Exact) : (Value.mapping kvs).Exact := by
  have hentries : ∀ p ∈ kvs, (∃ s, p.1 = .string s) ∧ p.2.jsonCompatible = true := by
    intro p hp
    obtain ⟨q, -, hq⟩ := exists_of_forall₂ hkeys p hp
    exact ⟨⟨q.1, hq⟩, (h p hp).compatible⟩
  refine ⟨?_, fun y hy => ?_⟩
  · rw [jsonCompatible, Bool.and_eq_true, decide_eq_true_eq, keys_of_strings hkeys]
    exact ⟨jsonCompatibleEntries_iff.mpr hentries, hnd⟩
  · cases hy with
    | part hx hy =>
        obtain ⟨p, hp, rfl⟩ := List.mem_map.mp hx
        exact (h p hp).floats y hy

/-- What an exact mapping consists of. -/
theorem Exact.entries {kvs : List (Value × Value)} (h : (Value.mapping kvs).Exact) :
    (kvs.filterMap fun p => p.1.asStr).Nodup ∧
      ∀ p ∈ kvs, (∃ s, p.1 = .string s) ∧ p.2.Exact := by
  have hc := h.compatible
  rw [jsonCompatible, Bool.and_eq_true, decide_eq_true_eq, jsonCompatibleEntries_iff] at hc
  refine ⟨hc.2, fun p hp => ⟨(hc.1 p hp).1, (hc.1 p hp).2, fun y hy => ?_⟩⟩
  exact h.floats y (.part (List.mem_map_of_mem hp) hy)

end

/-! ## Writing, part by part -/

section

variable [FloatText]

theorem listToJson_eq_mapM (xs : List Value) : listToJson xs = xs.mapM toJson := by
  induction xs with
  | nil => rfl
  | cons x xs ih => rw [listToJson, ih, List.mapM_cons]

theorem toJson_sequence_iff {xs : List Value} {j : Doc} : (Value.sequence xs).toJson = some j ↔
    ∃ js, Forall₂ (fun x j => x.toJson = some j) xs js ∧ .arr js = j := by
  rw [toJson, listToJson_eq_mapM, Option.map_eq_some_iff]
  simp only [mapM_eq_some_iff]

theorem entriesToJson_eq_mapM (kvs : List (Value × Value)) : entriesToJson kvs
    = kvs.mapM (fun p => (keyText p.1).bind fun key => (toJson p.2).map (Prod.mk key)) := by
  induction kvs with
  | nil => rfl
  | cons p kvs ih =>
      rw [entriesToJson, ih, List.mapM_cons]
      cases keyText p.1 with
      | none => rfl
      | some key => cases toJson p.2 <;> rfl

theorem toJson_mapping_iff {kvs : List (Value × Value)} {j : Doc} :
    (Value.mapping kvs).toJson = some j ↔ ∃ js,
      Forall₂ (fun p q => keyText p.1 = some q.1 ∧ p.2.toJson = some q.2) kvs js ∧ .obj js = j := by
  have hmember : ∀ (p : Value × Value) (q : String × Doc),
      ((keyText p.1).bind fun key => (toJson p.2).map (Prod.mk key)) = some q ↔
        keyText p.1 = some q.1 ∧ p.2.toJson = some q.2 := by
    intro p q
    obtain ⟨key, j⟩ := q
    cases keyText p.1 with
    | none => simp
    | some key' => cases toJson p.2 <;> simp
  rw [toJson, entriesToJson_eq_mapM, Option.map_eq_some_iff]
  simp only [mapM_eq_some_iff, hmember]

/-- A document is nested as deep as its value. -/
theorem depth_of_toJson (v : Value) : ∀ {j : Doc}, v.toJson = some j → j.depth = v.depth := by
  induction v using inductOnParts with
  | h v ih =>
      intro j hj
      cases v with
      | null | bool | string =>
          obtain rfl := Option.some.inj hj
          rfl
      | number n =>
          obtain rfl := Option.some.inj hj
          cases n with
          | posInt | negInt => rfl
          | float x => by_cases hx : x.isFinite = true <;> simp [numberToJson, hx, Json.depth, depth]
      | sequence xs =>
          obtain ⟨js, hjs, rfl⟩ := toJson_sequence_iff.mp hj
          have hdepth : Forall₂ (fun x j => j.depth = x.depth) xs js :=
            forall₂_imp_mem hjs fun x hx j hj => ih x hx hj
          rw [Json.depth, depth, depthElems_of_forall₂ hdepth]
      | mapping kvs =>
          obtain ⟨js, hjs, rfl⟩ := toJson_mapping_iff.mp hj
          have hdepth : Forall₂ (fun p q => q.2.depth = p.2.depth) kvs js :=
            forall₂_imp_mem hjs fun p hp q hq => ih p.2 (List.mem_map_of_mem hp) hq.2
          rw [Json.depth, depth, depthMembers_of_forall₂ hdepth]
      | tagged t v =>
          obtain ⟨i, hi, rfl⟩ := Option.map_eq_some_iff.mp hj
          have hdepth := ih v (List.mem_singleton_self v) hi
          simp only [Json.depth, Json.depthMembers, depth, hdepth, Nat.max_zero]

end

/-! ## Reading back -/

section

variable [JsonReader]

/-- What JSON can express, with floats that are read as they are, is read back as itself. -/
theorem Exact.readDoc {v : Value} (h : v.Exact) : ∀ {j : Doc}, v.toJson = some j →
    Value.readDoc j = some v := by
  induction v using inductOnParts with
  | h v ih =>
      intro j hj
      cases v with
      | null | bool | string =>
          obtain rfl := Option.some.inj hj
          rfl
      | number n =>
          obtain rfl := Option.some.inj hj
          cases n with
          | posInt | negInt => rfl
          | float x =>
              have hfinite : x.isFinite = true := h.compatible
              have hread := h.floats ⟨x, hfinite⟩ .here
              simp [numberToJson, hfinite, Value.readDoc, Json.mapNums, readNumber, hread, readValue,
                JsonNumber.toNumber]
      | sequence xs =>
          obtain ⟨js, hjs, rfl⟩ := toJson_sequence_iff.mp hj
          have hread : Forall₂ (fun x j => Value.readDoc j = some x) xs js :=
            forall₂_imp_mem hjs fun x hx j hj => ih x hx (exact_sequence.mp h x hx) hj
          exact readDoc_arr_iff.mpr ⟨xs, hread.flip, rfl⟩
      | mapping kvs =>
          obtain ⟨hnd, hentries⟩ := h.entries
          obtain ⟨js, hjs, rfl⟩ := toJson_mapping_iff.mp hj
          have hkeys : Forall₂ (fun p q => p.1 = .string q.1) kvs js := by
            refine forall₂_imp_mem hjs fun p hp q hq => ?_
            obtain ⟨⟨s, hs⟩, -⟩ := hentries p hp
            rw [hs] at hq
            rw [hs, Option.some.inj hq.1]
          have hread : Forall₂ (fun p q => Value.readDoc q.2 = some p.2 ∧ p.1 = .string q.1) kvs js :=
            Forall₂.mp (fun p q hk hr => ⟨hr, hk⟩) hkeys
              (forall₂_imp_mem hjs fun p hp q hq =>
                ih p.2 (List.mem_map_of_mem hp) (hentries p hp).2 hq.2)
          rw [keys_of_strings hkeys] at hnd
          exact readDoc_obj_iff.mpr ⟨hnd, kvs, hread.flip, rfl⟩
      | tagged t v => exact absurd h.compatible (by simp [jsonCompatible])

theorem readFloat_eq {x y : FiniteF64} (h : JsonReader.readFloat x = some y)
    (hb : y.val.beq x.val = true) : y = x := by
  simp only [F64.beq, Bool.or_eq_true, Bool.and_eq_true, beq_iff_eq] at hb
  rcases hb with ⟨hnan, -⟩ | ⟨-, he | ⟨hy, hx⟩⟩
  · -- a finite double is not a NaN
    have hfinite := y.property
    simp only [F64.isFinite, bne_iff_ne, ne_eq] at hfinite
    simp [F64.isNan, hfinite] at hnan
  · exact Subtype.ext he
  · exact JsonReader.readFloat_zero h hx hy

/-- **A mapping equal to what is read from its text has the text's keys**, and under each of
them what is read from the text of the value there. -/
theorem members_of_beq {kvs es : List (Value × Value)} {js : List (String × Doc)}
    (hjs : Forall₂ (fun p q => keyText p.1 = some q.1 ∧ p.2.toJson = some q.2) kvs js)
    (hnd : (js.map Prod.fst).Nodup)
    (hes : Forall₂ (fun q e => Value.readDoc q.2 = some e.2 ∧ e.1 = .string q.1) js es)
    (hb : subMapping es kvs = true) :
    Forall₂ (fun p q => p.1 = .string q.1 ∧ ∃ w, Value.readDoc q.2 = some w ∧ beq w p.2 = true)
      kvs js := by
  have htexts : kvs.map (fun p => keyText p.1) = js.map (fun q => some q.1) :=
    map_eq_of_forall₂ (hjs.imp fun p q h => h.1)
  have hdistinct : (js.map fun q => some q.1).Nodup := by
    rw [← Function.comp_def, ← List.map_map]
    exact hnd.map (Option.some_injective _)
  refine forall₂_of_keys htexts hdistinct fun q hq => ?_
  obtain ⟨e, he, hread, hkey⟩ := exists_of_forall₂ hes q hq
  obtain ⟨u, hu, hbeq⟩ := subMapping_iff.mp hb e he
  rw [hkey] at hu
  obtain ⟨k, hm, hk⟩ := entry_mem hu
  obtain rfl := eq_string_of_beq hk
  exact ⟨(.string q.1, u), hm, rfl, rfl, e.2, hread, hbeq⟩

theorem exact_float {x : F64} {w : Value} (hw : Value.readDoc (numberToJson (.float x)) = some w)
    (hb : beq w (.number (.float x)) = true) : (Value.number (.float x)).Exact := by
  by_cases hfinite : x.isFinite = true
  · rw [numberToJson, dif_pos hfinite, Value.readDoc, Json.mapNums, readNumber] at hw
    cases hread : JsonReader.readFloat ⟨x, hfinite⟩ with
    | none => simp [hread] at hw
    | some y =>
        rw [hread] at hw
        obtain rfl := Option.some.inj hw
        have hy : y = ⟨x, hfinite⟩ := readFloat_eq hread hb
        refine ⟨hfinite, fun z hz => ?_⟩
        cases hz with
        | here => rw [hread, hy]
        | part hz _ => simp [parts] at hz
  · -- written as null
    rw [numberToJson, dif_neg hfinite] at hw
    obtain rfl := Option.some.inj hw
    simp [beq] at hb

/-- What is read back as an equal value is what JSON can express, with floats that are read as
they are. -/
theorem exact_of_readDoc (v : Value) : ∀ {j : Doc} {w : Value}, v.toJson = some j →
    Value.readDoc j = some w → beq w v = true → v.Exact := by
  induction v using inductOnParts with
  | h v ih =>
      intro j w hj hw hb
      cases v with
      | null | bool | string => exact exact_scalar rfl rfl (by simp)
      | number n =>
          obtain rfl := Option.some.inj hj
          cases n with
          | posInt | negInt => exact exact_scalar rfl rfl (by simp)
          | float x => exact exact_float hw hb
      | sequence xs =>
          obtain ⟨js, hjs, rfl⟩ := toJson_sequence_iff.mp hj
          obtain ⟨ws, hws, rfl⟩ := readDoc_arr_iff.mp hw
          have hpairs := forall₂_comp (forall₂_comp hjs hws) (forall₂_of_beqList hb)
          rw [List.forall₂_same] at hpairs
          rw [exact_sequence]
          intro x hx
          obtain ⟨w, ⟨j, hj, hw⟩, hb⟩ := hpairs x hx
          exact ih x hx hj hw hb
      | mapping kvs =>
          obtain ⟨js, hjs, rfl⟩ := toJson_mapping_iff.mp hj
          obtain ⟨hnd, es, hes, rfl⟩ := readDoc_obj_iff.mp hw
          rw [beq, Bool.and_eq_true] at hb
          have hmembers := members_of_beq hjs hnd hes hb.2
          refine exact_mapping (hmembers.imp fun p q h => h.1) hnd fun p hp => ?_
          have hboth := Forall₂.mp (fun p q hm hj => And.intro hm hj) hmembers hjs
          obtain ⟨q, -, ⟨-, w, hw, hb⟩, -, hj⟩ := exists_of_forall₂ hboth p hp
          exact ih p.2 (List.mem_map_of_mem hp) hj hw hb
      | tagged t v =>
          -- written as an object, which is read as a mapping
          obtain ⟨i, -, rfl⟩ := Option.map_eq_some_iff.mp hj
          obtain ⟨-, es, -, rfl⟩ := readDoc_obj_iff.mp hw
          simp [beq] at hb

/-- **What is written is read back as an equal value exactly if JSON can express it and its
floats are read as they are.** -/
theorem readDoc_iff {v : Value} {j : Doc} (hj : v.toJson = some j) :
    (∃ w, readDoc j = some w ∧ w.beq v = true) ↔ v.Exact := by
  refine ⟨fun h => ?_, fun h => ?_⟩
  · obtain ⟨w, hw, hb⟩ := h
    exact exact_of_readDoc v hj hw hb
  · exact ⟨v, h.readDoc hj, beq_self h.compatible⟩

end

end Value

namespace ManifestBody

variable [JsonReader]

/-- **The bytes of a body are read back as its value** exactly if the value is exact and not
nested too deeply. -/
theorem readsBack_iff {v : Value} {b : ManifestBody} (h : fromValue v = some b) :
    (∃ w, Value.fromSlice b.bytes = some w ∧ w.beq b.value = true) ↔
      b.value.Exact ∧ b.value.depth < Value.recursionLimit := by
  obtain ⟨hbytes, rfl⟩ := fromValue_spec h
  obtain ⟨j, hj, hjb⟩ := Option.map_eq_some_iff.mp hbytes
  have hslice : Value.fromSlice b.bytes
      = if j.depth < Value.recursionLimit then Value.readDoc j else none := by
    rw [← hjb]
    exact Value.fromSlice_jsonBytes j
  rw [hslice, Value.depth_of_toJson b.value hj]
  split
  · rename_i hdepth
    rw [Value.readDoc_iff hj]
    simp [hdepth]
  · rename_i hdepth
    simp [hdepth]

end ManifestBody

end SynchrotronCD
