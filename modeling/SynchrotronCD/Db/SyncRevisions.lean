import SynchrotronCD.Plugins.RoundTrip
import SynchrotronCD.Server.Rollback

/-!
# Recorded revisions

`record_sync_revision` writes the manifests of a sync into a row, as one JSON text,
and trims the application's rows to the newest; `load_sync_revision` reads them
back. The rows of the app cache hold the same text.

The text holds the value of each body, so what is loaded are the manifests that
were recorded if the bytes of each body are read back as its value — and if the
two levels that the text adds are not too many (`loadsBack_iff`).
-/

namespace SynchrotronCD

open Lib Value
open List (Forall₂)

/-! ## Manifests as text -/

/-- `Serialize`. -/
def Gvk.toDoc (g : Gvk) : Doc :=
  .obj [("group", .str g.group), ("version", .str g.version), ("kind", .str g.kind)]

/-- `Serialize`, given the document of the body. -/
def Manifest.docWith (m : Manifest) (body : Doc) : Doc :=
  .obj [("gvk", m.gvk.toDoc), ("name", .str m.name),
    ("namespace", (m.namespace.map Json.str).getD .null), ("body", body)]

theorem Manifest.depth_docWith (m : Manifest) (j : Doc) :
    (m.docWith j).depth = max 1 j.depth + 1 := by
  unfold Manifest.docWith
  cases m.namespace <;> simp [Json.depth, Json.depthMembers, Gvk.toDoc]

section

variable [FloatText]

/-- A body is serialized through its value. -/
def Manifest.toDoc (m : Manifest) : Option Doc := m.body.value.toJson.map m.docWith

/-- `serde_json::to_string(manifests)`. -/
def manifestsToString (ms : List Manifest) : Option String :=
  (ms.mapM Manifest.toDoc).map fun js => String.ofList (Json.arr js).print

end

/-- `Deserialize`. -/
def Gvk.ofDoc (j : Doc) : Option Gvk := do
  match ← (Db.structFields ["group", "version", "kind"] 3 j).toOption with
  | [group, version, kind] =>
    let group ← (Db.requiredString "group" group).toOption
    let version ← (Db.requiredString "version" version).toOption
    let kind ← (Db.requiredString "kind" kind).toOption
    return ⟨group, version, kind⟩
  | _ => none

theorem Gvk.ofDoc_toDoc (g : Gvk) : Gvk.ofDoc g.toDoc = some g := rfl

section

variable [JsonReader]

/-- `Deserialize`; the body is built from the value that is read. -/
def Manifest.ofDoc (j : Doc) : Option Manifest := do
  match ← (Db.structFields ["gvk", "name", "namespace", "body"] 4 j).toOption with
  | [gvk, name, ns, body] =>
    let gvk ← gvk.bind Gvk.ofDoc
    let name ← (Db.requiredString "name" name).toOption
    let ns ← (Db.optionalString ns).toOption
    let value ← body.bind readValue
    let body ← ManifestBody.fromValue value
    return ⟨gvk, name, ns, body⟩
  | _ => none

def manifestsOfDoc : Doc → Option (List Manifest)
  | .arr js => js.mapM Manifest.ofDoc
  | _ => none

/-- `serde_json::from_str::<Vec<Manifest>>`. -/
def manifestsFromStr : Db.Rollback.FromStr := fun text =>
  (JsonReader.parse text.toUTF8.data.toList).bind manifestsOfDoc

/-- What is read back from the document of one manifest. -/
def Manifest.reread (j : Doc) : Option Manifest :=
  (j.mapNums (readNumber JsonReader.readFloat)).bind Manifest.ofDoc

theorem Manifest.ofDoc_docWith (m : Manifest) (body : Doc) : Manifest.ofDoc (m.docWith body)
    = (readValue body).bind fun v => (ManifestBody.fromValue v).map fun b =>
        ⟨m.gvk, m.name, m.namespace, b⟩ := by
  have hfields : Db.structFields ["gvk", "name", "namespace", "body"] 4 (m.docWith body)
      = .ok [some m.gvk.toDoc, some (.str m.name),
        some ((m.namespace.map Json.str).getD .null), some body] := rfl
  have hns : Db.optionalString (some ((m.namespace.map Json.str).getD .null)) = .ok m.namespace := by
    cases m.namespace <;> rfl
  unfold Manifest.ofDoc
  rw [hfields]
  simp only [Except.toOption, Option.bind_eq_bind, Option.bind_some, Gvk.ofDoc_toDoc, hns,
    Db.requiredString, Db.stringOf]
  cases readValue body with
  | none => rfl
  | some v => cases hv : ManifestBody.fromValue v <;> simp [hv]

theorem Manifest.reread_docWith (m : Manifest) (j : Doc) : Manifest.reread (m.docWith j)
    = (readDoc j).bind fun v => (ManifestBody.fromValue v).map fun b =>
        ⟨m.gvk, m.name, m.namespace, b⟩ := by
  have hnums : (m.docWith j).mapNums (readNumber JsonReader.readFloat)
      = (j.mapNums (readNumber JsonReader.readFloat)).map m.docWith := by
    unfold Manifest.docWith
    cases hj : j.mapNums (readNumber JsonReader.readFloat) with
    | none => cases m.namespace <;> simp [Json.mapNums, Json.mapMembers, Gvk.toDoc, hj]
    | some j' => cases m.namespace <;> simp [Json.mapNums, Json.mapMembers, Gvk.toDoc, hj]
  unfold Manifest.reread readDoc
  rw [hnums]
  cases j.mapNums (readNumber JsonReader.readFloat) with
  | none => rfl
  | some j' => exact m.ofDoc_docWith j'

/-- The documents are read one by one, if the text is not nested too deeply. -/
theorem manifestsFromStr_text (js : List Doc) :
    manifestsFromStr (String.ofList (Json.arr js).print)
      = if (Json.arr js).depth < recursionLimit then js.mapM Manifest.reread else none := by
  have hreread : js.mapM Manifest.reread
      = (Json.mapElems (readNumber JsonReader.readFloat) js).bind fun js => js.mapM Manifest.ofDoc := by
    rw [Json.mapElems_eq_mapM, mapM_bind_mapM]
    rfl
  have hparse := JsonReader.parse_jsonBytes (Json.arr js)
  unfold manifestsFromStr
  rw [show (String.ofList (Json.arr js).print).toUTF8.data.toList = jsonBytes (.arr js) from rfl,
    hparse, hreread]
  split
  · rw [Json.mapNums]
    cases Json.mapElems (readNumber JsonReader.readFloat) js <;> rfl
  · rfl

/-! ## What is loaded is what was recorded -/

/-- A loaded manifest equals the recorded one. -/
structure SameManifest (loaded m : Manifest) : Prop where
  gvk : loaded.gvk = m.gvk
  name : loaded.name = m.name
  «namespace» : loaded.namespace = m.namespace
  value : loaded.body.value.beq m.body.value = true

/-- The text of some manifests is read back as equal ones. -/
def LoadsBack (ms : List Manifest) : Prop :=
  ∃ text loaded, manifestsToString ms = some text ∧ manifestsFromStr text = some loaded
    ∧ Forall₂ SameManifest loaded ms

/-- The text adds two levels to each body. -/
theorem depth_texts {ms : List Manifest} {js : List Doc}
    (h : Forall₂ (fun m j => m.toDoc = some j) ms js) :
    (Json.arr js).depth < recursionLimit ↔ ∀ m ∈ ms, m.body.value.depth + 2 < recursionLimit := by
  have hone : ∀ {m : Manifest} {j : Doc}, m.toDoc = some j →
      (j.depth ≤ 126 ↔ m.body.value.depth + 2 < recursionLimit) := by
    intro m j hm
    obtain ⟨i, hi, rfl⟩ := Option.map_eq_some_iff.mp hm
    rw [m.depth_docWith, depth_of_toJson m.body.value hi, recursionLimit]
    omega
  have hlimit : (Json.arr js).depth < recursionLimit ↔ ∀ j ∈ js, j.depth ≤ 126 := by
    rw [← Json.depthElems_le, Json.depth, recursionLimit]
    omega
  rw [hlimit]
  refine ⟨fun hjs m hm => ?_, fun hms j hj => ?_⟩
  · obtain ⟨j, hj, hmj⟩ := exists_of_forall₂ h m hm
    exact (hone hmj).mp (hjs j hj)
  · obtain ⟨m, hm, hmj⟩ := exists_of_forall₂ h.flip j hj
    exact (hone hmj).mpr (hms m hm)

theorem Manifest.reread_of_exact {m : Manifest} {j : Doc} (hm : m.toDoc = some j)
    (hb : ManifestBody.fromValue m.body.value = some m.body) (h : m.body.value.Exact) :
    Manifest.reread j = some m := by
  obtain ⟨i, hi, rfl⟩ := Option.map_eq_some_iff.mp hm
  rw [m.reread_docWith, h.readDoc hi, Option.bind_some, hb]
  rfl

theorem Manifest.exact_of_reread {m l : Manifest} {j : Doc} (hm : m.toDoc = some j)
    (hl : Manifest.reread j = some l) (hs : SameManifest l m) : m.body.value.Exact := by
  obtain ⟨i, hi, rfl⟩ := Option.map_eq_some_iff.mp hm
  rw [m.reread_docWith] at hl
  obtain ⟨v, hv, hbody⟩ := Option.bind_eq_some_iff.mp hl
  obtain ⟨b, hb, rfl⟩ := Option.map_eq_some_iff.mp hbody
  obtain ⟨-, rfl⟩ := ManifestBody.fromValue_spec hb
  exact exact_of_readDoc m.body.value hi hv hs.value

/-- **The text is read back as equal manifests** exactly if every body is exact and nested two
levels less than the reader allows. -/
theorem loadsBack_iff {ms : List Manifest}
    (h : ∀ m ∈ ms, ManifestBody.fromValue m.body.value = some m.body) :
    LoadsBack ms ↔ ∀ m ∈ ms, m.body.value.Exact ∧ m.body.value.depth + 2 < recursionLimit := by
  have hdocs : ∀ m ∈ ms, ∃ j, m.toDoc = some j := by
    intro m hm
    obtain ⟨j, hj, -⟩ := Option.map_eq_some_iff.mp (ManifestBody.fromValue_spec (h m hm)).1
    exact ⟨m.docWith j, by rw [Manifest.toDoc, hj]; rfl⟩
  obtain ⟨js, hjs⟩ := mapM_eq_some_of_forall hdocs
  have hpairs := mapM_eq_some_iff.mp hjs
  have htext : manifestsToString ms = some (String.ofList (Json.arr js).print) := by
    rw [manifestsToString, hjs]
    rfl
  refine ⟨fun hloads m hm => ?_, fun hms => ?_⟩
  · obtain ⟨text, loaded, hwritten, hread, hsame⟩ := hloads
    obtain rfl := Option.some.inj (htext.symm.trans hwritten)
    rw [manifestsFromStr_text] at hread
    split at hread
    · rename_i hdepth
      have hall := forall₂_comp (forall₂_comp hpairs (mapM_eq_some_iff.mp hread)) hsame
      rw [List.forall₂_same] at hall
      obtain ⟨l, ⟨j, hj, hl⟩, hlm⟩ := hall m hm
      exact ⟨Manifest.exact_of_reread hj hl hlm, (depth_texts hpairs).mp hdepth m hm⟩
    · simp at hread
  · refine ⟨_, ms, htext, ?_, List.forall₂_same.mpr fun m hm => ?_⟩
    · have hdepth := (depth_texts hpairs).mpr fun m hm => (hms m hm).2
      have hreread : Forall₂ (fun m j => Manifest.reread j = some m) ms js :=
        forall₂_imp_mem hpairs fun m hm j hj =>
          Manifest.reread_of_exact hj (h m hm) (hms m hm).1
      rw [manifestsFromStr_text, if_pos hdepth]
      exact mapM_eq_some_iff.mpr hreread.flip
    · exact ⟨rfl, rfl, rfl, beq_self (hms m hm).1.compatible⟩

end

/-! ## The rows -/

namespace Db

open Rollback

/-- Default retention if a caller passes `0`. -/
def defaultRetention : Nat := 10

namespace Database

def insertSyncRevision (db : Database) (rev : SyncRevision) : Except Violation Database :=
  if ¬ db.applications.HasId rev.appId then .error .foreignKey
  else .ok { db with syncRevisions := db.syncRevisions ++ [rev] }

/-- Trim an application to its `n` newest rows: a row goes if `n` others are newer. -/
def trimSyncRevisions (db : Database) (appId : String) (n : Nat) : Database :=
  { db with
    syncRevisions := db.syncRevisions.filter fun r =>
      r.appId ≠ appId ∨ (db.syncRevisions.filter fun q => q.appId = appId ∧ r.id < q.id).length < n }

/-- Append a successful sync to the revision log and trim it, under the next `id` of the
table; both in one savepoint. -/
def recordSyncRevision [FloatText] (db : Database) (appId commitHash : String)
    (paramsHash : Vector UInt8 32) (manifests : List Manifest) (retention id : Nat)
    (now : Timestamp) : Database × Except DbError Nat :=
  let n := if retention = 0 then defaultRetention else retention
  match manifestsToString manifests with
  | none => (db, .error (.sqlite "serialize manifests for revision"))
  | some json =>
    match db.insertSyncRevision ⟨id, appId, commitHash, paramsHash.toList, json, now⟩ with
    | .error v => (db, .error (.constraint v))
    | .ok db' => (db'.trimSyncRevisions appId n, .ok id)

end Database

/-- The newest row of an application is not trimmed. -/
theorem trimSyncRevisions_newest {db : Database} {old : List SyncRevision} {rev : SyncRevision}
    {n : Nat} (hn : 0 < n) (hrows : db.syncRevisions = old ++ [rev])
    (hfresh : ∀ r ∈ old, r.id < rev.id) :
    ∃ kept, (db.trimSyncRevisions rev.appId n).syncRevisions = kept ++ [rev] ∧ kept ⊆ old := by
  have hnewest : (db.syncRevisions.filter fun q => q.appId = rev.appId ∧ rev.id < q.id) = [] := by
    rw [hrows, List.filter_eq_nil_iff]
    intro q hq
    rcases List.mem_append.mp hq with hq | hq
    · have hlt := hfresh q hq
      simp only [decide_eq_true_eq, not_and]
      omega
    · simp [List.mem_singleton.mp hq]
  unfold Database.trimSyncRevisions
  dsimp only
  rw [hrows, List.filter_append, List.filter_singleton, ← hrows]
  simp only [hnewest, List.length_nil, hn, or_true, decide_true, cond_true]
  exact ⟨_, rfl, fun r hr => List.mem_of_mem_filter hr⟩

/-- The row just recorded is found. -/
theorem find_newest {kept old : List SyncRevision} {rev : SyncRevision} (hsub : kept ⊆ old)
    (hfresh : ∀ r ∈ old, r.id < rev.id) :
    (kept ++ [rev]).find? (fun r => (r.id : Int) = rev.id) = some rev := by
  have hold : kept.find? (fun r => (r.id : Int) = rev.id) = none := by
    rw [List.find?_eq_none]
    intro r hr
    have hlt := hfresh r (hsub hr)
    simp only [decide_eq_true_eq]
    omega
  rw [List.find?_append, hold, Option.none_or, List.find?_cons_of_pos (by simp)]

theorem recordSyncRevision_ok [FloatText] {db db' : Database} {appId commitHash : String}
    {paramsHash : Vector UInt8 32} {ms : List Manifest} {retention id : Nat} {now : Timestamp}
    (h : db.recordSyncRevision appId commitHash paramsHash ms retention id now = (db', .ok id)) :
    ∃ json n, 0 < n ∧ manifestsToString ms = some json ∧ db' = ({ db with
      syncRevisions := db.syncRevisions ++ [⟨id, appId, commitHash, paramsHash.toList, json, now⟩] }
        : Database).trimSyncRevisions appId n := by
  unfold Database.recordSyncRevision Database.insertSyncRevision at h
  cases hjson : manifestsToString ms with
  | none => simp [hjson] at h
  | some json =>
      rw [hjson] at h
      by_cases hid : db.applications.HasId appId
      · simp only [hid, not_true_eq_false, if_false, Prod.mk.injEq, and_true] at h
        refine ⟨json, if retention = 0 then defaultRetention else retention, ?_, rfl, h.symm⟩
        split
        · decide
        · omega
      · simp [hid] at h

/-- **What was recorded is what is loaded**, as far as its text is read back. -/
theorem load_recordSyncRevision [FloatText] (fromStr : FromStr) {db db' : Database}
    {appId commitHash : String} {paramsHash : Vector UInt8 32} {ms : List Manifest}
    {retention id : Nat} {now : Timestamp} (hfresh : ∀ r ∈ db.syncRevisions, r.id < id)
    (h : db.recordSyncRevision appId commitHash paramsHash ms retention id now = (db', .ok id)) :
    ∃ json, manifestsToString ms = some json ∧ loadSyncRevision fromStr db' id
      = match fromStr json with
        | none => .error (.sqlite "deserialize manifests from revision row")
        | some manifests =>
          .ok (some (⟨id, appId, commitHash, paramsHash.toList, json, now⟩, manifests)) := by
  obtain ⟨json, n, hn, hjson, rfl⟩ := recordSyncRevision_ok h
  refine ⟨json, hjson, ?_⟩
  let rev : SyncRevision := ⟨id, appId, commitHash, paramsHash.toList, json, now⟩
  let db' : Database := { db with syncRevisions := db.syncRevisions ++ [rev] }
  have hnewest : ∀ r ∈ db.syncRevisions, r.id < rev.id := hfresh
  have hkept : ∃ kept, (db'.trimSyncRevisions rev.appId n).syncRevisions = kept ++ [rev]
      ∧ kept ⊆ db.syncRevisions := trimSyncRevisions_newest hn rfl hnewest
  obtain ⟨kept, hrows, hsub⟩ := hkept
  have hfind : (db'.trimSyncRevisions rev.appId n).syncRevisions.find?
      (fun r => (r.id : Int) = (id : Int)) = some rev := by
    rw [hrows]
    exact find_newest hsub hnewest
  have hlen : rev.paramsHash.length = 32 := Vector.length_toList
  unfold loadSyncRevision
  rw [hfind]
  dsimp only
  refine (if_neg (by simp [hlen])).trans ?_
  cases fromStr json <;> rfl

/-! ## Manifests of a stream -/

section

variable [JsonReader]

/-- A revision is loaded with the manifests it was recorded with. -/
def RevisionLoads (db : Database) (id : Nat) (ms : List Manifest) : Prop :=
  ∃ rev loaded, loadSyncRevision manifestsFromStr db id = .ok (some (rev, loaded))
    ∧ Forall₂ SameManifest loaded ms

theorem revisionLoads_iff {db db' : Database} {appId commitHash : String}
    {paramsHash : Vector UInt8 32} {ms : List Manifest} {retention id : Nat} {now : Timestamp}
    (hfresh : ∀ r ∈ db.syncRevisions, r.id < id)
    (h : db.recordSyncRevision appId commitHash paramsHash ms retention id now = (db', .ok id)) :
    RevisionLoads db' id ms ↔ LoadsBack ms := by
  obtain ⟨json, hjson, hload⟩ := load_recordSyncRevision manifestsFromStr hfresh h
  refine ⟨fun hloads => ?_, fun hloads => ?_⟩
  · obtain ⟨rev, loaded, hrev, hsame⟩ := hloads
    rw [hload] at hrev
    cases hread : manifestsFromStr json with
    | none => simp [hread] at hrev
    | some manifests =>
        simp only [hread, Except.ok.injEq, Option.some.injEq, Prod.mk.injEq] at hrev
        exact ⟨json, loaded, hjson, hrev.2 ▸ hread, hsame⟩
  · obtain ⟨text, loaded, htext, hread, hsame⟩ := hloads
    obtain rfl := Option.some.inj (hjson.symm.trans htext)
    rw [hread] at hload
    exact ⟨_, loaded, hload, hsame⟩

/-- The body of a manifest of a stream is made from its value. -/
theorem fromValue_of_parseStream {label : String} {docs : List (Except String Value)}
    {ms : List Manifest} (h : parseStream label docs = .ok ms) :
    ∀ m ∈ ms, ManifestBody.fromValue m.body.value = some m.body := by
  intro m hm
  obtain ⟨i, v, -, -, hv⟩ := mem_parseDocs h m hm
  obtain ⟨_, _, _, _, _, _, _, hbody⟩ := valueToManifest_ok hv
  obtain ⟨-, rfl⟩ := ManifestBody.fromValue_spec hbody
  exact hbody

/-- **The bytes of a body are read back as its value**, and a stored manifest as itself, exactly
if JSON can express the value, its floats are read as they are, and it is not nested too deeply:
a row holds the body two levels down. -/
theorem manifests_round_trip {label : String} {docs : List (Except String Value)}
    {ms : List Manifest} (h : parseStream label docs = .ok ms) :
    (∀ m ∈ ms, (∃ v, fromSlice m.body.bytes = some v ∧ v.beq m.body.value = true) ↔
        m.body.value.Exact ∧ m.body.value.depth < recursionLimit)
      ∧ (LoadsBack ms ↔
        ∀ m ∈ ms, m.body.value.Exact ∧ m.body.value.depth + 2 < recursionLimit)
      ∧ ∀ (db db' : Database) (appId commitHash : String) (paramsHash : Vector UInt8 32)
        (retention id : Nat) (now : Timestamp), (∀ r ∈ db.syncRevisions, r.id < id) →
        db.recordSyncRevision appId commitHash paramsHash ms retention id now = (db', .ok id) →
        (RevisionLoads db' id ms ↔
          ∀ m ∈ ms, m.body.value.Exact ∧ m.body.value.depth + 2 < recursionLimit) := by
  have hbodies := fromValue_of_parseStream h
  have hloads := loadsBack_iff hbodies
  refine ⟨fun m hm => ManifestBody.readsBack_iff (hbodies m hm), hloads, ?_⟩
  intro db db' appId commitHash paramsHash retention id now hfresh hrecord
  exact (revisionLoads_iff hfresh hrecord).trans hloads

end

/-- Recorded as the first revision of the shop. -/
theorem settings_round_trip :
    ∃ m, @parseStream JsonReader.ofBits.toFloatText "settings.yaml"
        [.ok (configMap "settings" "v1").body.value] = .ok [m]
      ∧ (∃ v, @fromSlice .ofBits m.body.bytes = some v ∧ v.beq m.body.value = true)
      ∧ @RevisionLoads .ofBits (@Database.recordSyncRevision JsonReader.ofBits.toFloatText shopDb "1"
          "c1" (Vector.replicate 32 0) [m] 0 1 5).1 1 [m] := by
  have hexact : @Exact .ofBits (configMap "settings" "v1").body.value :=
    @Exact.mk .ofBits _ (by decide) fun _ _ => rfl
  have htrip := @manifests_round_trip .ofBits "settings.yaml"
    [.ok (configMap "settings" "v1").body.value] _ rfl
  refine ⟨_, rfl, (htrip.1 _ List.mem_cons_self).mpr ⟨hexact, by decide⟩, ?_⟩
  refine (htrip.2.2 shopDb _ "1" "c1" (Vector.replicate 32 0) 0 1 5 (by decide) rfl).mpr ?_
  intro m hm
  obtain rfl := List.mem_singleton.mp hm
  exact ⟨hexact, by decide⟩

/-- A config map with a number for a key. -/
def portNames : Value := .mapping [(.string "apiVersion", .string "v1"),
  (.string "kind", .string "ConfigMap"),
  (.string "metadata", .mapping [(.string "name", .string "ports")]),
  (.string "data", .mapping [(.number (.posInt 8080), .string "http")])]

/-- **A number for a key is read back as a text.** -/
theorem portNames_not_read_back : ¬ ∀ (reader : JsonReader) (label : String)
    (docs : List (Except String Value)) (ms : List Manifest),
    @parseStream reader.toFloatText label docs = .ok ms → ∀ m ∈ ms,
    ∃ v, @fromSlice reader m.body.bytes = some v ∧ v.beq m.body.value = true := by
  intro h
  obtain ⟨m, hm, hvalue⟩ : ∃ m, @parseStream JsonReader.ofBits.toFloatText "ports.yaml"
      [.ok portNames] = .ok [m] ∧ m.body.value = portNames := ⟨_, rfl, rfl⟩
  have hread := h .ofBits "ports.yaml" [.ok portNames] [m] hm m List.mem_cons_self
  have hbody : @ManifestBody.fromValue JsonReader.ofBits.toFloatText m.body.value = some m.body :=
    @fromValue_of_parseStream .ofBits _ _ _ hm m List.mem_cons_self
  have hexact := ((@ManifestBody.readsBack_iff .ofBits _ _ hbody).mp hread).1
  have hcompatible := @Exact.compatible .ofBits _ hexact
  rw [hvalue] at hcompatible
  exact absurd hcompatible (by decide)

end Db

end SynchrotronCD
