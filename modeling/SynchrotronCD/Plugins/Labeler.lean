import Mathlib.Data.List.Induction
import SynchrotronCD.Plugins.Raw
import SynchrotronCD.Plugins.RoundTrip

/-!
# The labeler

A plugin that reads the manifests of a directory, in the order in which it is listed, and
puts a label on each for every string parameter, making the maps on the way where they are
missing, also the metadata of a document that has none.

Labelling is setting labels and nothing else: two passes are one with the labels of both
(`applyLabels_append`), and what is read of a labelled directory are the resources that
the raw source reads, in another order, each with its labels (`labeled_resources`).
-/

namespace SynchrotronCD

open Lib
open List (Forall₂)

/-! ## Entries that are set -/

/-- `Mapping::insert`: in the place of the entry with the key, or at the end. -/
def insertEntry (k v : Value) (kvs : List (Value × Value)) : List (Value × Value) :=
  match entry kvs k with
  | some _ => setEntry k v kvs
  | none => kvs ++ [(k, v)]

theorem insertEntry_cons (k v : Value) (p : Value × Value) (kvs : List (Value × Value)) :
    insertEntry k v (p :: kvs) =
      if Value.beq k p.1 = true then (p.1, v) :: kvs else p :: insertEntry k v kvs := by
  unfold insertEntry
  rw [entry_cons, setEntry]
  by_cases h : Value.beq k p.1 = true
  · rw [if_pos h, if_pos h, if_pos h]
  · rw [if_neg h, if_neg h, if_neg h]
    cases entry kvs k <;> rfl

/-- A set entry is the one that is found, and no other is touched. -/
theorem entry_insertEntry (a b : String) (v : Value) (kvs : List (Value × Value)) :
    entry (insertEntry (.string a) v kvs) (.string b) = if a = b then some v else entry kvs (.string b) := by
  induction kvs with
  | nil =>
      show entry [(.string a, v)] (.string b) = _
      rw [entry_cons]
      by_cases hab : a = b
      · rw [if_pos hab, if_pos (by simp [Value.beq, hab])]
      · rw [if_neg hab, if_neg (by simp [Value.beq, Ne.symm hab])]
  | cons p kvs ih =>
      rw [insertEntry_cons]
      by_cases hp : Value.beq (.string a) p.1 = true
      · have hkey := Value.eq_string_of_beq hp
        rw [if_pos hp, entry_cons, entry_cons, hkey]
        by_cases hab : a = b
        · rw [if_pos hab, if_pos (by simp [Value.beq, hab])]
        · rw [if_neg hab, if_neg (by simp [Value.beq, Ne.symm hab]), if_neg (by simp [Value.beq, Ne.symm hab])]
      · rw [if_neg hp, entry_cons, entry_cons, ih]
        by_cases hb : Value.beq (.string b) p.1 = true
        · have hne : a ≠ b := fun hab => hp (hab ▸ hb)
          rw [if_pos hb, if_pos hb, if_neg hne]
        · rw [if_neg hb, if_neg hb]

/-- The last of two settings is the one that counts. -/
theorem insertEntry_insertEntry (k v w : Value) (hk : Value.beq k k = true) (kvs : List (Value × Value)) :
    insertEntry k w (insertEntry k v kvs) = insertEntry k w kvs := by
  induction kvs with
  | nil =>
      show insertEntry k w [(k, v)] = [(k, w)]
      rw [insertEntry_cons, if_pos hk]
  | cons p kvs ih =>
      rw [insertEntry_cons, insertEntry_cons]
      by_cases hp : Value.beq k p.1 = true
      · rw [if_pos hp, if_pos hp, insertEntry_cons, if_pos hp]
      · rw [if_neg hp, if_neg hp, insertEntry_cons, if_neg hp, ih]

/-- An entry set to what it is. -/
theorem insertEntry_self {k v : Value} {kvs : List (Value × Value)} (h : entry kvs k = some v) :
    insertEntry k v kvs = kvs := by
  induction kvs with
  | nil => cases h
  | cons p kvs ih =>
      rw [entry_cons] at h
      rw [insertEntry_cons]
      by_cases hp : Value.beq k p.1 = true
      · rw [if_pos hp] at h ⊢
        obtain rfl : p.2 = v := Option.some.inj h
        rfl
      · rw [if_neg hp] at h ⊢
        rw [ih h]

namespace Labeler

def LABEL_PREFIX : String := "synchrotron.io/"

/-- The string members of an object, as labels. -/
def collectLabels : Value.Doc → List (String × String)
  | .obj members => members.filterMap fun
    | (k, .str s) => some (LABEL_PREFIX ++ k, s)
    | _ => none
  | _ => []

/-- Something done to the entries of a mapping; anything else is left alone. -/
def inMapping (f : List (Value × Value) → List (Value × Value)) : Value → Value
  | .mapping kvs => .mapping (f kvs)
  | v => v

/-- `entry(key).or_insert_with(..)`, and something done to what is there. -/
def overEntry (key : String) (f : Value → Value) (kvs : List (Value × Value)) : List (Value × Value) :=
  insertEntry (.string key) (f ((entry kvs (.string key)).getD (.mapping []))) kvs

def insertLabels (labels : List (String × String)) (kvs : List (Value × Value)) : List (Value × Value) :=
  labels.foldl (fun kvs l => insertEntry (.string l.1) (.string l.2) kvs) kvs

def applyLabels (labels : List (String × String)) : Value → Value :=
  inMapping (overEntry "metadata" (inMapping (overEntry "labels" (inMapping (insertLabels labels)))))

/-- The documents of a file, labelled, without the null ones. -/
def labelDocs (path : String) (labels : List (String × String)) :
    List (Except String Value) → Except String (List Value)
  | [] => .ok []
  | .error e :: _ => .error ("parse " ++ path ++ ": " ++ e)
  | .ok value :: docs => do
    let rest ← labelDocs path labels docs
    let labeled := applyLabels labels value
    return if labeled.isNull then rest else labeled :: rest

section

-- the documents of a text, and the label of a path
variable (yaml : String → List (Except String Value)) (display : Raw.Path → String)

/-- The documents of all files, labelled. -/
def labelFiles (labels : List (String × String)) : List Raw.YamlFile → Except String (List Value)
  | [] => .ok []
  | file :: files =>
    match file.text with
    | .error e => .error ("read " ++ display file.path ++ ": " ++ e.message)
    | .ok text => do
      let front ← labelDocs (display file.path) labels (yaml text)
      let back ← labelFiles labels files
      return front ++ back

/-- The texts of documents, one after the other. -/
def joinDocs : List String → String
  | [] => ""
  | text :: texts => texts.foldl (fun out text => out ++ "---\n" ++ text) text

/-- The directory's documents as one text, with `print` for a document's text. The files are not
sorted. -/
def labelDirectory (print : Value → Except String String) (root : Raw.Node) (rawParams : Value.Doc) :
    Except String String :=
  match labelFiles yaml display (collectLabels rawParams) root.walked with
  | .error e => .error e
  | .ok docs =>
    match docs.mapM print with
    | .error e => .error ("serialize manifest: " ++ e)
    | .ok texts => .ok (joinDocs texts)

end

/-! ## What labelling does to a document -/

theorem inMapping_comp (f g : List (Value × Value) → List (Value × Value)) :
    inMapping f ∘ inMapping g = inMapping (f ∘ g) := by
  funext v
  cases v <;> rfl

theorem overEntry_comp (key : String) (f g : Value → Value) :
    overEntry key f ∘ overEntry key g = overEntry key (f ∘ g) := by
  funext kvs
  show overEntry key f (overEntry key g kvs) = _
  unfold overEntry
  rw [entry_insertEntry, if_pos rfl, insertEntry_insertEntry _ _ _ (by simp [Value.beq])]
  rfl

theorem insertLabels_comp (first second : List (String × String)) :
    insertLabels second ∘ insertLabels first = insertLabels (first ++ second) := by
  funext kvs
  exact (List.foldl_append).symm

/-- **Two passes are one** with the labels of both. -/
theorem applyLabels_append (first second : List (String × String)) (v : Value) :
    applyLabels second (applyLabels first v) = applyLabels (first ++ second) v := by
  show (applyLabels second ∘ applyLabels first) v = _
  unfold applyLabels
  rw [inMapping_comp, overEntry_comp, inMapping_comp, overEntry_comp, inMapping_comp, insertLabels_comp]

theorem entry_insertLabels (labels : List (String × String)) (kvs : List (Value × Value)) (key : String) :
    entry (insertLabels labels kvs) (.string key)
      = ((labels.reverse.find? fun l => l.1 = key).map fun l => .string l.2).or (entry kvs (.string key)) := by
  induction labels using List.reverseRecOn with
  | nil => rfl
  | append_singleton labels l ih =>
      rw [insertLabels, List.foldl_append] at *
      rw [List.foldl_cons, List.foldl_nil, entry_insertEntry, List.reverse_append, List.reverse_singleton,
        List.singleton_append, List.find?_cons]
      by_cases hl : l.1 = key
      · rw [if_pos hl, decide_eq_true hl]
        rfl
      · rw [if_neg hl, decide_eq_false hl]
        exact ih

/-- A label that has been put is put again to no effect. -/
theorem insertLabels_of_entries {labels : List (String × String)} {kvs : List (Value × Value)}
    (h : ∀ l ∈ labels, entry kvs (.string l.1) = some (.string l.2)) : insertLabels labels kvs = kvs := by
  unfold insertLabels
  induction labels with
  | nil => rfl
  | cons l labels ih =>
      obtain ⟨hl, hrest⟩ := List.forall_mem_cons.mp h
      rw [List.foldl_cons, insertEntry_self hl]
      exact ih hrest

theorem find_reverse {labels : List (String × String)} (hnd : (labels.map Prod.fst).Nodup)
    {l : String × String} (hl : l ∈ labels) : labels.reverse.find? (fun x => x.1 = l.1) = some l := by
  cases hfind : labels.reverse.find? (fun x => x.1 = l.1) with
  | none =>
      have hno := List.find?_eq_none.mp hfind l (List.mem_reverse.mpr hl)
      simp at hno
  | some x =>
      have hx : x ∈ labels := List.mem_reverse.mp (List.mem_of_find?_eq_some hfind)
      have hkey : x.1 = l.1 := by simpa using List.find?_some hfind
      rw [List.inj_on_of_nodup_map hnd hx hl hkey]

/-- **A second pass with the same labels changes nothing.** -/
theorem applyLabels_idem {labels : List (String × String)} (hnd : (labels.map Prod.fst).Nodup) (v : Value) :
    applyLabels labels (applyLabels labels v) = applyLabels labels v := by
  have hinsert : insertLabels labels ∘ insertLabels labels = insertLabels labels := by
    funext kvs
    refine insertLabels_of_entries fun l hl => ?_
    rw [entry_insertLabels, find_reverse hnd hl]
    rfl
  show (applyLabels labels ∘ applyLabels labels) v = _
  unfold applyLabels
  rw [inMapping_comp, overEntry_comp, inMapping_comp, overEntry_comp, inMapping_comp, hinsert]

/-! ## What a labelled document is read as -/

theorem isNull_inMapping (f : List (Value × Value) → List (Value × Value)) (v : Value) :
    (inMapping f v).isNull = v.isNull := by
  cases v <;> rfl

theorem entry_overEntry (key : String) (f : Value → Value) (kvs : List (Value × Value)) :
    entry (overEntry key f kvs) (.string key) = some (f ((entry kvs (.string key)).getD (.mapping []))) := by
  unfold overEntry
  rw [entry_insertEntry, if_pos rfl]

theorem get_overEntry (key other : String) (f : Value → Value) (v : Value) (hne : key ≠ other) :
    (inMapping (overEntry key f) v).get other = v.get other := by
  cases v with
  | mapping kvs =>
      show entry (overEntry key f kvs) (.string other) = entry kvs (.string other)
      unfold overEntry
      rw [entry_insertEntry, if_neg hne]
  | null | bool | number | string | sequence | tagged => rfl

/-- Only the metadata changes. -/
theorem get_applyLabels (labels : List (String × String)) (v : Value) {key : String} (hne : "metadata" ≠ key) :
    (applyLabels labels v).get key = v.get key :=
  get_overEntry "metadata" key _ v hne

/-- Only the labels of the metadata change. -/
theorem metadata_applyLabels (labels : List (String × String)) (v : Value) {field : String}
    (hne : "labels" ≠ field) : ((applyLabels labels v).get "metadata").bind (fun m => m.get field)
      = (v.get "metadata").bind fun m => m.get field := by
  unfold applyLabels
  cases v with
  | mapping kvs =>
      show (entry (overEntry "metadata" _ kvs) (.string "metadata")).bind _ = _
      rw [entry_overEntry, Option.bind_some, get_overEntry _ _ _ _ hne]
      show _ = (entry kvs (.string "metadata")).bind fun m => m.get field
      -- metadata that was missing has no fields but its labels
      cases entry kvs (.string "metadata") <;> rfl
  | null | bool | number | string | sequence | tagged => rfl

theorem metadataStr_applyLabels (labels : List (String × String)) (v : Value) {field : String}
    (hne : "labels" ≠ field) : metadataStr (applyLabels labels v) field = metadataStr v field :=
  congrArg (Option.bind · Value.asStr) (metadata_applyLabels labels v hne)

/-- The label of a document under a key. -/
def labelOf (v : Value) (key : String) : Option Value :=
  ((v.get "metadata").bind fun m => m.get "labels").bind fun ls => ls.get key

/-- A document that labels can be put on: what is there of the maps on the way is a map. -/
structure Labelable (v : Value) : Prop where
  mapping : ∃ kvs, v = .mapping kvs
  metadata : ∀ md, v.get "metadata" = some md → ∃ kvs, md = .mapping kvs
  labels : ∀ md ls, v.get "metadata" = some md → md.get "labels" = some ls → ∃ kvs, ls = .mapping kvs

theorem labelOf_applyLabels (labels : List (String × String)) {v : Value} (h : Labelable v) (key : String) :
    labelOf (applyLabels labels v) key
      = ((labels.reverse.find? fun l => l.1 = key).map fun l => .string l.2).or (labelOf v key) := by
  obtain ⟨kvs, rfl⟩ := h.mapping
  have hinner : ∀ ls : Value, (∃ kvs, ls = .mapping kvs) → (inMapping (insertLabels labels) ls).get key
      = ((labels.reverse.find? fun l => l.1 = key).map fun l => .string l.2).or (ls.get key) := by
    rintro ls ⟨kvs, rfl⟩
    exact entry_insertLabels labels kvs key
  have hmiddle : ∀ md : Value, (∃ kvs, md = .mapping kvs) → (∀ ls, md.get "labels" = some ls → ∃ kvs, ls = .mapping kvs) →
      ((inMapping (overEntry "labels" (inMapping (insertLabels labels))) md).get "labels").bind (fun ls => ls.get key)
      = ((labels.reverse.find? fun l => l.1 = key).map fun l => .string l.2).or
          ((md.get "labels").bind fun ls => ls.get key) := by
    rintro md ⟨kvs, rfl⟩ hlabels
    show (entry (overEntry "labels" _ kvs) (.string "labels")).bind _ = _
    rw [entry_overEntry, Option.bind_some]
    change ∀ ls, entry kvs (.string "labels") = some ls → _ at hlabels
    show _ = Option.or _ ((entry kvs (.string "labels")).bind fun ls => ls.get key)
    cases hls : entry kvs (.string "labels") with
    | none => exact hinner (.mapping []) ⟨[], rfl⟩
    | some ls => exact hinner ls (hlabels ls hls)
  unfold labelOf applyLabels
  show ((entry (overEntry "metadata" _ kvs) (.string "metadata")).bind fun m => m.get "labels").bind _ = _
  rw [entry_overEntry, Option.bind_some]
  show _ = Option.or _ (((entry kvs (.string "metadata")).bind fun m => m.get "labels").bind fun ls => ls.get key)
  have hmetadata := h.metadata
  have hlabels := h.labels
  change ∀ md, entry kvs (.string "metadata") = some md → _ at hmetadata
  change ∀ md ls, entry kvs (.string "metadata") = some md → _ at hlabels
  cases hmd : entry kvs (.string "metadata") with
  | none => exact hmiddle (.mapping []) ⟨[], rfl⟩ fun ls hls => nomatch hls
  | some md => exact hmiddle md (hmetadata md hmd) fun ls hls => hlabels md ls hmd hls

theorem mem_collectLabels {members : List (String × Value.Doc)} {l : String × String} :
    l ∈ collectLabels (.obj members) ↔ ∃ name, l.1 = LABEL_PREFIX ++ name ∧ (name, .str l.2) ∈ members := by
  obtain ⟨key, text⟩ := l
  unfold collectLabels
  rw [List.mem_filterMap]
  constructor
  · rintro ⟨⟨name, value⟩, hmem, hl⟩
    cases value with
    | str s =>
        obtain ⟨rfl, rfl⟩ := Prod.mk.inj (Option.some.inj hl)
        exact ⟨name, rfl, hmem⟩
    | null | bool | num | arr | obj => cases hl
  · rintro ⟨name, rfl, hmem⟩
    exact ⟨_, hmem, rfl⟩

/-- Parameters of different names are labels of different keys. -/
theorem nodup_collectLabels {members : List (String × Value.Doc)} (hnd : (members.map Prod.fst).Nodup) :
    ((collectLabels (.obj members)).map Prod.fst).Nodup := by
  have hsub : (collectLabels (.obj members)).map Prod.fst
      |>.Sublist ((members.map Prod.fst).map (LABEL_PREFIX ++ ·)) := by
    unfold collectLabels
    induction members with
    | nil => exact .slnil
    | cons m members ih =>
        obtain ⟨name, value⟩ := m
        have hrest := ih (List.nodup_cons.mp hnd).2
        cases value with
        | str s => exact hrest.cons_cons _
        | null | bool | num | arr | obj => exact hrest.cons _
  refine hsub.nodup (hnd.map fun a b h => ?_)
  exact (String.append_right_inj LABEL_PREFIX).mp h

/-- **The labels are exactly those the parameters name**, and nothing else is touched. -/
theorem labels_exactly {members : List (String × Value.Doc)} (hnd : (members.map Prod.fst).Nodup) {v : Value}
    (h : Labelable v) :
    (∀ name s, (name, .str s) ∈ members →
        labelOf (applyLabels (collectLabels (.obj members)) v) (LABEL_PREFIX ++ name) = some (.string s))
      ∧ (∀ key, (∀ name s, (name, .str s) ∈ members → key ≠ LABEL_PREFIX ++ name) →
        labelOf (applyLabels (collectLabels (.obj members)) v) key = labelOf v key)
      ∧ (∀ field, "labels" ≠ field →
        ((applyLabels (collectLabels (.obj members)) v).get "metadata").bind (fun m => m.get field)
          = (v.get "metadata").bind fun m => m.get field)
      ∧ (∀ key, "metadata" ≠ key → (applyLabels (collectLabels (.obj members)) v).get key = v.get key)
      ∧ applyLabels (collectLabels (.obj members)) (applyLabels (collectLabels (.obj members)) v)
        = applyLabels (collectLabels (.obj members)) v := by
  have hlabels := nodup_collectLabels hnd
  refine ⟨fun name s hmem => ?_, fun key hkey => ?_, fun field hne => metadata_applyLabels _ v hne,
    fun key hne => get_applyLabels _ v hne, applyLabels_idem hlabels v⟩
  · have hl : (LABEL_PREFIX ++ name, s) ∈ collectLabels (.obj members) :=
      mem_collectLabels.mpr ⟨name, rfl, hmem⟩
    rw [labelOf_applyLabels _ h, find_reverse hlabels hl]
    rfl
  · have hnone : (collectLabels (.obj members)).reverse.find? (fun l => l.1 = key) = none := by
      rw [List.find?_eq_none]
      intro l hl heq
      obtain ⟨name, hname, hmem⟩ := mem_collectLabels.mp (List.mem_reverse.mp hl)
      exact hkey name l.2 hmem (by rw [← hname]; exact (of_decide_eq_true heq).symm)
    rw [labelOf_applyLabels _ h, hnone]
    rfl

def settings : Value :=
  .mapping [(.string "apiVersion", .string "v1"), (.string "kind", .string "ConfigMap"),
    (.string "metadata", .mapping [(.string "name", .string "settings")])]

theorem settings_labelable : Labelable settings where
  mapping := ⟨_, rfl⟩
  metadata md h := by
    obtain rfl := Option.some.inj h
    exact ⟨_, rfl⟩
  labels md ls h hls := by
    obtain rfl := Option.some.inj h
    cases hls

theorem team_labelled : Labelable settings
    ∧ labelOf (applyLabels (collectLabels (.obj [("team", .str "platform"), ("replicas", .null)])) settings)
      (LABEL_PREFIX ++ "team") = some (.string "platform") :=
  ⟨settings_labelable, (labels_exactly (by decide) settings_labelable).1 "team" "platform" (by simp)⟩

/-! ## What a labelled directory is read as -/

section

variable [FloatText]

/-- A value that JSON can write. -/
def Writable (v : Value) : Prop := v.toJson.isSome = true

theorem writable_mapping {kvs : List (Value × Value)} :
    Writable (.mapping kvs) ↔ ∀ p ∈ kvs, p.1.keyText.isSome = true ∧ Writable p.2 := by
  unfold Writable
  rw [Value.toJson, Option.isSome_map]
  induction kvs with
  | nil => simp [Value.entriesToJson]
  | cons p kvs ih =>
      obtain ⟨k, v⟩ := p
      rw [List.forall_mem_cons, ← ih, Value.entriesToJson]
      cases k.keyText with
      | none => simp
      | some key =>
          cases v.toJson with
          | none => simp
          | some j => cases Value.entriesToJson kvs <;> simp

theorem writable_insertEntry {key : String} {v : Value} {kvs : List (Value × Value)}
    (hkvs : Writable (.mapping kvs)) (hv : Writable v) :
    Writable (.mapping (insertEntry (.string key) v kvs)) := by
  rw [writable_mapping] at hkvs ⊢
  induction kvs with
  | nil =>
      intro p hp
      obtain rfl := List.mem_singleton.mp hp
      exact ⟨rfl, hv⟩
  | cons p kvs ih =>
      obtain ⟨hp, hrest⟩ := List.forall_mem_cons.mp hkvs
      rw [insertEntry_cons]
      split
      · exact List.forall_mem_cons.mpr ⟨⟨hp.1, hv⟩, hrest⟩
      · exact List.forall_mem_cons.mpr ⟨hp, ih hrest⟩

theorem writable_overEntry {key : String} {f : Value → Value} (hf : ∀ v, Writable v → Writable (f v))
    {v : Value} (h : Writable v) : Writable (inMapping (overEntry key f) v) := by
  cases v with
  | mapping kvs =>
      refine writable_insertEntry h (hf _ ?_)
      cases hentry : entry kvs (.string key) with
      | none => exact writable_mapping.mpr nofun
      | some v =>
          obtain ⟨k, hmem, -⟩ := entry_mem hentry
          exact (writable_mapping.mp h _ hmem).2
  | null | bool | number | string | sequence | tagged => exact h

theorem writable_applyLabels (labels : List (String × String)) {v : Value} (h : Writable v) :
    Writable (applyLabels labels v) := by
  refine writable_overEntry (fun md hmd => writable_overEntry (fun ls hls => ?_) hmd) h
  cases ls with
  | mapping kvs =>
      show Writable (.mapping (insertLabels labels kvs))
      induction labels generalizing kvs with
      | nil => exact hls
      | cons l labels ih => exact ih _ (writable_insertEntry hls rfl)
  | null | bool | number | string | sequence | tagged => exact hls

/-- The resource is the same, and its body is labelled. -/
structure LabeledAs (labels : List (String × String)) (m m' : Manifest) : Prop where
  gvk : m'.gvk = m.gvk
  name : m'.name = m.name
  «namespace» : m'.namespace = m.namespace
  body : m'.body.value = applyLabels labels m.body.value

theorem fromValue_isSome {v : Value} : (ManifestBody.fromValue v).isSome = true ↔ Writable v := by
  unfold ManifestBody.fromValue ManifestBody.toVec Writable
  rw [Option.isSome_map, Option.isSome_map]

/-- A labelled document is the manifest of the same resource, wherever it stands. -/
theorem valueToManifest_applyLabels {label label' : String} {i j : Nat} {v : Value} {m : Manifest}
    (labels : List (String × String)) (h : valueToManifest label i v = .ok m) :
    ∃ m', valueToManifest label' j (applyLabels labels v) = .ok m' ∧ LabeledAs labels m m' := by
  obtain ⟨apiVersion, kind, hapi, hkind, hgvk, hname, hns, hbody⟩ := valueToManifest_ok h
  have hwritable := writable_applyLabels labels (fromValue_isSome.mp (Option.isSome_iff_exists.mpr ⟨_, hbody⟩))
  obtain ⟨body, hbody'⟩ := Option.isSome_iff_exists.mp (fromValue_isSome.mpr hwritable)
  refine ⟨⟨m.gvk, m.name, m.namespace, body⟩, ?_, rfl, rfl, rfl, ?_⟩
  · have hname' := (metadataStr_applyLabels labels v (by decide)).trans hname
    have hns' := (metadataStr_applyLabels labels v (by decide)).trans hns.symm
    unfold valueToManifest requiredStr
    rw [get_applyLabels labels v (by decide), hapi, get_applyLabels labels v (by decide), hkind, hname', hns',
      hbody', hgvk]
    rfl
  · rw [(ManifestBody.fromValue_spec hbody').2, (ManifestBody.fromValue_spec hbody).2]

omit [FloatText] in
theorem labelDocs_ok {path : String} {labels : List (String × String)} : ∀ {docs : List (Except String Value)}
    {labeled : List Value}, labelDocs path labels docs = .ok labeled →
      ∃ vs : List Value, docs = vs.map .ok ∧ labeled = (vs.filter fun v => !v.isNull).map (applyLabels labels)
  | [], _, h => by
      obtain rfl := Except.ok.inj h
      exact ⟨[], rfl, rfl⟩
  | .error e :: docs, _, h => by simp [labelDocs] at h
  | .ok v :: docs, _, h => by
      rw [labelDocs] at h
      cases hrest : labelDocs path labels docs with
      | error e => rw [hrest] at h; simp [bind, Except.bind] at h
      | ok rest =>
          rw [hrest] at h
          obtain rfl := Except.ok.inj h
          obtain ⟨vs, rfl, rfl⟩ := labelDocs_ok hrest
          refine ⟨v :: vs, rfl, ?_⟩
          rw [show (applyLabels labels v).isNull = v.isNull from isNull_inMapping _ v]
          cases hnull : v.isNull with
          | true => rw [List.filter_cons_of_neg (by simp [hnull])]; rfl
          | false => rw [List.filter_cons_of_pos (by simp [hnull])]; rfl

variable {yaml : String → List (Except String Value)} {display : Raw.Path → String}

/-- What the raw source reads of a file. -/
def partOf (yaml : String → List (Except String Value)) (display : Raw.Path → String)
    (f : Raw.YamlFile) : List Manifest := (Raw.loadFile yaml display f).toOption.getD []

/-- The raw source reads every file, and the parts one after the other. -/
theorem loadFiles_parts {fs : List Raw.YamlFile} {ms : List Manifest}
    (h : Raw.loadFiles yaml display fs = .ok ms) :
    (∀ f ∈ fs, Raw.loadFile yaml display f = .ok (partOf yaml display f)) ∧
      ms = fs.flatMap (partOf yaml display) := by
  induction fs generalizing ms with
  | nil =>
      obtain rfl := Except.ok.inj h
      exact ⟨nofun, rfl⟩
  | cons f fs ih =>
      rw [Raw.loadFiles] at h
      cases hf : Raw.loadFile yaml display f with
      | error e => rw [hf] at h; simp [bind, Except.bind] at h
      | ok part =>
      cases hrest : Raw.loadFiles yaml display fs with
      | error e => rw [hf, hrest] at h; simp [bind, Except.bind] at h
      | ok rest =>
          rw [hf, hrest] at h
          obtain rfl := Except.ok.inj h
          obtain ⟨hparts, rfl⟩ := ih hrest
          have hpart : partOf yaml display f = part := by
            rw [partOf, hf]
            rfl
          refine ⟨List.forall_mem_cons.mpr ⟨by rw [hf, hpart], hparts⟩, ?_⟩
          rw [List.flatMap_cons, hpart]

/-- The labelled documents of the files are those of the manifests that the raw source reads. -/
theorem labelFiles_ok {labels : List (String × String)} {fs : List Raw.YamlFile} {labeled : List Value}
    (h : labelFiles yaml display labels fs = .ok labeled)
    (hparts : ∀ f ∈ fs, Raw.loadFile yaml display f = .ok (partOf yaml display f)) :
    ∃ vs : List Value, labeled = vs.map (applyLabels labels) ∧ (∀ v ∈ vs, v.isNull = false) ∧
      Forall₂ (fun v m => ∃ label j, valueToManifest label j v = .ok m) vs
        (fs.flatMap (partOf yaml display)) := by
  induction fs generalizing labeled with
  | nil =>
      obtain rfl := Except.ok.inj h
      exact ⟨[], rfl, nofun, .nil⟩
  | cons f fs ih =>
      obtain ⟨hpart, hparts⟩ := List.forall_mem_cons.mp hparts
      obtain ⟨-, text, vs, htext, hvs, hms⟩ := Raw.loadFile_ok hpart
      rw [labelFiles, htext] at h
      dsimp only at h
      cases hfront : labelDocs (display f.path) labels (yaml text) with
      | error e => rw [hfront] at h; simp [bind, Except.bind] at h
      | ok front =>
      cases hback : labelFiles yaml display labels fs with
      | error e => rw [hfront, hback] at h; simp [bind, Except.bind] at h
      | ok back =>
          rw [hfront, hback] at h
          obtain rfl := Except.ok.inj h
          obtain ⟨us, hus, rfl⟩ := labelDocs_ok hfront
          obtain rfl : us = vs :=
            List.map_injective_iff.mpr (fun _ _ h => Except.ok.inj h) (hus.symm.trans hvs)
          obtain ⟨ws, rfl, hnull, hrest⟩ := ih hback hparts
          refine ⟨us.filter (!·.isNull) ++ ws, by rw [List.map_append], fun v hv => ?_, ?_⟩
          · rcases List.mem_append.mp hv with hv | hv
            · simpa using (List.mem_filter.mp hv).2
            · exact hnull v hv
          · rw [List.flatMap_cons]
            refine List.rel_append (hms.imp fun v m hm => ?_) hrest
            obtain ⟨j, hj⟩ := hm
            exact ⟨_, j, hj⟩

/-- Documents that are manifests wherever they stand are read as these manifests. -/
theorem parseDocs_of_forall {label : String} {vs : List Value} {ms : List Manifest} (i : Nat)
    (hnull : ∀ v ∈ vs, v.isNull = false)
    (h : Forall₂ (fun v m => ∀ j, valueToManifest label j v = .ok m) vs ms) :
    parseDocs label i (vs.map .ok) = .ok ms := by
  induction h generalizing i with
  | nil => rfl
  | @cons v m vs ms hv _ ih =>
      obtain ⟨hv', hrest⟩ := List.forall_mem_cons.mp hnull
      rw [List.map_cons, parseDocs, if_neg (by simp [hv']), hv i, ih (i + 1) hrest]
      rfl

omit [FloatText] in
theorem isNull_applyLabels (labels : List (String × String)) (v : Value) :
    (applyLabels labels v).isNull = v.isNull := isNull_inMapping _ v

theorem labeled_manifests {label' : String} {labels : List (String × String)} {vs : List Value}
    {ms : List Manifest} (h : Forall₂ (fun v m => ∃ label j, valueToManifest label j v = .ok m) vs ms) :
    ∃ ms', Forall₂ (fun v m => ∀ j, valueToManifest label' j v = .ok m) (vs.map (applyLabels labels)) ms' ∧
      Forall₂ (LabeledAs labels) ms ms' := by
  induction h with
  | nil => exact ⟨[], .nil, .nil⟩
  | @cons v m vs ms hv _ ih =>
      obtain ⟨label, i, hv⟩ := hv
      obtain ⟨ms', hvs, hms⟩ := ih
      obtain ⟨m', hm', hlabeled⟩ := @valueToManifest_applyLabels _ label label' i 0 v m labels hv
      refine ⟨m' :: ms', .cons (fun j => ?_) hvs, .cons hlabeled hms⟩
      -- the place of a document is told in its errors only
      obtain ⟨m'', hm'', hlabeled'⟩ := @valueToManifest_applyLabels _ label label' i j v m labels hv
      rw [hm'']
      obtain ⟨_, _, _, _, _, _, _, hbody⟩ := valueToManifest_ok hm'
      obtain ⟨_, _, _, _, _, _, _, hbody'⟩ := valueToManifest_ok hm''
      obtain ⟨gvk, name, ns, body⟩ := m'
      obtain ⟨gvk', name', ns', body'⟩ := m''
      obtain rfl : gvk' = gvk := hlabeled'.gvk.trans hlabeled.gvk.symm
      obtain rfl : name' = name := hlabeled'.name.trans hlabeled.name.symm
      obtain rfl : ns' = ns := hlabeled'.namespace.trans hlabeled.namespace.symm
      obtain rfl : body' = body := Option.some.inj (hbody'.symm.trans hbody)
      rfl

/-- **A labelled directory has the resources of the directory**, in the order of its listing, each
with the labels put on its body. -/
theorem labeled_resources {print : Value → Except String String} {root : Raw.Node}
    {rawParams : Value.Doc} {text label : String} {ms : List Manifest}
    (hrender : labelDirectory yaml display print root rawParams = .ok text)
    (hread : ∀ docs, labelFiles yaml display (collectLabels rawParams) root.walked = .ok docs →
      yaml text = docs.map .ok)
    (hplain : Raw.loadDir yaml display root = .ok ms) :
    ∃ ms₁ ms₂, ms₁.Perm ms ∧ parseStream label (yaml text) = .ok ms₂ ∧
      Forall₂ (LabeledAs (collectLabels rawParams)) ms₁ ms₂ := by
  have hfiles : Raw.loadFiles yaml display root.files = .ok ms := by
    unfold Raw.loadDir at hplain
    split at hplain
    · exact hplain
    · cases hplain
  obtain ⟨hparts, rfl⟩ := loadFiles_parts hfiles
  -- the raw source reads the same files, sorted
  have hsorted : root.walked.Perm root.files := (List.perm_insertionSort _ root.walked).symm
  unfold labelDirectory at hrender
  cases hdocs : labelFiles yaml display (collectLabels rawParams) root.walked with
  | error e =>
      rw [hdocs] at hrender
      cases hrender
  | ok docs =>
      obtain ⟨vs, rfl, hnull, hms⟩ := labelFiles_ok hdocs fun f hf => hparts f (hsorted.mem_iff.mp hf)
      obtain ⟨ms₂, hvs, hlabeled⟩ := @labeled_manifests _ label (collectLabels rawParams) _ _ hms
      refine ⟨_, ms₂, hsorted.flatMap_right _, ?_, hlabeled⟩
      rw [hread _ hdocs]
      refine parseDocs_of_forall 0 (fun v hv => ?_) hvs
      obtain ⟨w, hw, rfl⟩ := List.mem_map.mp hv
      rw [isNull_applyLabels]
      exact hnull w hw

end

/-- A directory in which `b.yaml` is listed before `a.yaml`. -/
def shopDirectory : Raw.Node :=
  .dir true (.cons "b.yaml".toUTF8.data.toList true (.file (.ok "b"))
    (.cons "a.yaml".toUTF8.data.toList true (.file (.ok "a")) .nil))

/-- Its texts, and the text that is rendered of it. -/
def shopTexts (text : String) : List (Except String Value) :=
  if text = "a" then [.ok settings, .ok .null]
  else if text = "b" then [.ok (configMap "flags" "v1").body.value]
  else [.ok (applyLabels [("synchrotron.io/team", "platform")] (configMap "flags" "v1").body.value),
    .ok (applyLabels [("synchrotron.io/team", "platform")] settings)]

/-- The resources of the directory, labelled, in the order in which it is listed. -/
theorem shop_resources : ∃ ms ms₁ ms₂,
    @Raw.loadDir .ofBits shopTexts (fun _ => "") shopDirectory = .ok ms ∧ ms₁.Perm ms ∧
    @parseStream .ofBits "labeler" (shopTexts "doc---\ndoc") = .ok ms₂ ∧
    Forall₂ (LabeledAs [("synchrotron.io/team", "platform")]) ms₁ ms₂ := by
  obtain ⟨ms, hplain⟩ : ∃ ms, @Raw.loadDir .ofBits shopTexts (fun _ => "") shopDirectory = .ok ms :=
    ⟨_, rfl⟩
  obtain ⟨ms₁, ms₂, hperm, hparse, hlabeled⟩ := @labeled_resources .ofBits shopTexts (fun _ => "")
    (fun _ => .ok "doc") shopDirectory (.obj [("team", .str "platform")]) "doc---\ndoc" "labeler" ms
    rfl
    (fun docs hdocs => by
      obtain rfl := Except.ok.inj hdocs
      rfl) hplain
  exact ⟨ms, ms₁, ms₂, hplain, hperm, hparse, hlabeled⟩

end Labeler

end SynchrotronCD
