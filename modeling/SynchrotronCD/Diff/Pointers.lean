import SynchrotronCD.Diff.Equivalent
import SynchrotronCD.Diff.Ignore
import SynchrotronCD.Diff.Resolve

/-!
# Pointers to changes

A pointer names a path by its segments, one token each, and a token is the segment's
name with nothing lost in the escaping (`pathToJsonPointer_inj`). An element of a list-map
however is named by its first key alone, while the compare tells elements apart by all
of their keys. So a rule for one field of a port drops the changes of that field in the
ports that share its number.

`pointers_distinct_iff` says when this does not happen, in terms of the places where the
two bodies differ (`DiffersAt`).
-/

namespace SynchrotronCD

open Lib

/-! ## Tokens -/

/-- What a pointer shows of a segment, before it is escaped. -/
def PathSegment.shown : PathSegment → String
  | .field name => name
  | .index i => toString i
  | .keyed keys => (keys.head?.map Prod.snd).getD ""

/-- A character as it is escaped. -/
def escapeChar (c : Char) : List Char :=
  if c = '~' then ['~', '0'] else if c = '/' then ['~', '1'] else [c]

theorem toList_escapePointer (s : String) :
    (escapePointer s).toList = s.toList.flatMap escapeChar := by
  unfold escapePointer replaceChar
  simp only [String.toList_ofList]
  rw [List.flatMap_assoc]
  refine List.flatMap_congr fun c _ => ?_
  unfold escapeChar
  by_cases htilde : c = '~'
  · subst htilde
    rfl
  · rw [if_neg htilde, if_neg htilde, List.flatMap_singleton]
    rfl

theorem escapeChar_decodable {c d : Char} {xs ys : List Char}
    (h : escapeChar c ++ xs = escapeChar d ++ ys) : c = d ∧ xs = ys := by
  unfold escapeChar at h
  grind

theorem escapePointer_injective : Function.Injective escapePointer := by
  intro s t h
  have hlists : s.toList.flatMap escapeChar = t.toList.flatMap escapeChar := by
    rw [← toList_escapePointer, ← toList_escapePointer, h]
  refine String.toList_injective (flatMap_injective (fun c => ?_) escapeChar_decodable hlists)
  unfold escapeChar
  grind

theorem slash_notMem_escapePointer (s : String) : '/' ∉ (escapePointer s).toList := by
  rw [toList_escapePointer, List.mem_flatMap]
  rintro ⟨c, -, hc⟩
  unfold escapeChar at hc
  grind

/-- The digits of an index have nothing to escape. -/
theorem escapePointer_index (i : Nat) : escapePointer (toString i) = toString i := by
  refine String.toList_injective ?_
  rw [toList_escapePointer]
  have hplain : ∀ c ∈ (toString i).toList, escapeChar c = [c] := by
    intro c hc
    have hd : c.isDigit = true := Value.isDigit_toDigits (n := i) (by simpa using hc)
    unfold escapeChar
    rw [if_neg (by rintro rfl; simp at hd), if_neg (by rintro rfl; simp at hd)]
  rw [List.flatMap_congr hplain]
  exact List.flatMap_singleton' _

theorem pointerToken_eq (seg : PathSegment) : pointerToken seg = escapePointer seg.shown := by
  cases seg with
  | index i => exact (escapePointer_index i).symm
  | field name => rfl
  | keyed keys => rfl

theorem toList_pathToJsonPointer (p : ValuePath) : (pathToJsonPointer p).toList =
    (p.map fun seg => (escapePointer seg.shown).toList).flatMap ('/' :: ·) := by
  unfold pathToJsonPointer
  rw [String.toList_join, List.flatMap_map, List.flatMap_map]
  refine List.flatMap_congr fun seg _ => ?_
  rw [String.toList_append, pointerToken_eq]
  rfl

/-- A pointer can be cut at its slashes. -/
theorem splitOn_pathToJsonPointer (p : ValuePath) : (pathToJsonPointer p).toList.splitOn '/' =
    [] :: p.map fun seg => (escapePointer seg.shown).toList := by
  rw [toList_pathToJsonPointer, ← List.nil_append (List.flatMap _ _), ← intercalate_cons]
  refine List.splitOn_intercalate '/' (fun t ht => ?_) (List.cons_ne_nil _ _)
  rcases List.mem_cons.mp ht with rfl | ht
  · exact List.not_mem_nil
  · obtain ⟨seg, -, rfl⟩ := List.mem_map.mp ht
    exact slash_notMem_escapePointer _

/-- **Two paths have one pointer** exactly if their segments are shown alike. -/
theorem pathToJsonPointer_inj {p q : ValuePath} : pathToJsonPointer p = pathToJsonPointer q ↔
    p.map PathSegment.shown = q.map PathSegment.shown := by
  have hinj : Function.Injective fun s : String => (escapePointer s).toList :=
    fun _ _ h => escapePointer_injective (String.toList_injective h)
  have hmap : ∀ r : ValuePath, (r.map fun seg => (escapePointer seg.shown).toList)
      = (r.map PathSegment.shown).map fun s => (escapePointer s).toList := fun r => by
    rw [List.map_map]
    rfl
  constructor
  · intro h
    have hsplit := splitOn_pathToJsonPointer p
    rw [h, splitOn_pathToJsonPointer q, hmap, hmap, List.cons.injEq] at hsplit
    exact (List.map_injective_iff.mpr hinj hsplit.2).symm
  · intro h
    refine String.toList_injective ?_
    rw [toList_pathToJsonPointer, toList_pathToJsonPointer, hmap, hmap, h]

/-! ## Where two bodies differ -/

section

variable [FloatText] [YamlText] {gvk : Gvk} {listMaps : ListMapKeys} {path : ValuePath}

/-- The places at or below `path` where two values differ. -/
inductive DiffersAt (gvk : Gvk) (listMaps : ListMapKeys) (path : ValuePath) (d l : Value) :
    ValuePath → Prop
  /-- Two values side by side that are not compared part by part, and are not equal. -/
  | whole {q : ValuePath} {x y : Value} (side : SideBySide gvk listMaps path d l q x y)
      (differ : sameShape x y = false) (unequal : Value.beq x y = false) :
      DiffersAt gvk listMaps path d l q
  /-- A desired part with nothing beside it. -/
  | desired {q : ValuePath} {x y v : Value} {seg : PathSegment}
      (side : SideBySide gvk listMaps path d l q x y)
      (beside : Beside gvk listMaps q x y ⟨seg, some v, none⟩) :
      DiffersAt gvk listMaps path d l (q.push seg)
  /-- A live part with nothing beside it. -/
  | live {q : ValuePath} {x y v : Value} {seg : PathSegment}
      (side : SideBySide gvk listMaps path d l q x y)
      (beside : Beside gvk listMaps q x y ⟨seg, none, some v⟩) :
      DiffersAt gvk listMaps path d l (q.push seg)

theorem DiffersAt.part {d l v w : Value} {seg : PathSegment} {q : ValuePath}
    (beside : Beside gvk listMaps path d l ⟨seg, some v, some w⟩)
    (h : DiffersAt gvk listMaps (path.push seg) v w q) : DiffersAt gvk listMaps path d l q := by
  cases h with
  | whole side differ unequal => exact .whole (.part beside side) differ unequal
  | desired side below => exact .desired (.part beside side) below
  | live side below => exact .live (.part beside side) below

theorem differsAt_of_mem (d : Value) : ∀ {path : ValuePath} {l : Value} {c : Change},
    c ∈ diffValue gvk listMaps d l path → DiffersAt gvk listMaps path d l c.path := by
  induction d using Value.inductOnParts with
  | h d ih =>
      intro path l c hc
      cases mem_diffValue_iff.mp hc with
      | whole differ unequal => exact .whole .here differ unequal
      | inside beside below => exact .part beside (ih _ (beside.desired_mem rfl) below)
      | added beside => exact .desired .here beside
      | removed beside => exact .live .here beside

/-- **The paths of the changes** are the places where the two values differ. -/
theorem exists_change_iff {d l : Value} {q : ValuePath} :
    (∃ c ∈ diffValue gvk listMaps d l path, c.path = q) ↔ DiffersAt gvk listMaps path d l q := by
  constructor
  · rintro ⟨c, hc, rfl⟩
    exact differsAt_of_mem d hc
  · intro h
    cases h with
    | whole side differ unequal =>
        exact ⟨_, side.mem (mem_diffValue_iff.mpr (.whole differ unequal)), rfl⟩
    | desired side beside => exact ⟨_, side.mem (mem_diffValue_iff.mpr (.added beside)), rfl⟩
    | live side beside => exact ⟨_, side.mem (mem_diffValue_iff.mpr (.removed beside)), rfl⟩

/-! ## Rules for one field -/

/-- Two parts of one place that are shown alike, and in each of them a difference, at
places that are shown alike. -/
structure Twins (gvk : Gvk) (listMaps : ListMapKeys) (d l : Value) (pre : ValuePath)
    (seg seg' : PathSegment) (post post' : ValuePath) : Prop where
  apart : seg ≠ seg'
  alike : seg.shown = seg'.shown
  below : post.map PathSegment.shown = post'.map PathSegment.shown
  differs : DiffersAt gvk listMaps .root d l (pre ++ seg :: post)
  differs' : DiffersAt gvk listMaps .root d l (pre ++ seg' :: post')

/-- What the compare of two manifests is made of. -/
def TwinsIn (desired live : Manifest) (listMaps : ListMapKeys) : Prop :=
  ∃ pre seg seg' post post', Twins desired.gvk listMaps (stripExcluded desired.body.value)
    (stripExcluded live.body.value) pre seg seg' post post'

omit [FloatText] [YamlText] in
/-- The first segment at which two paths part that are shown alike. -/
theorem exists_parting {p q : ValuePath} (hne : p ≠ q)
    (h : p.map PathSegment.shown = q.map PathSegment.shown) :
    ∃ pre seg seg' post post', p = pre ++ seg :: post ∧ q = pre ++ seg' :: post' ∧ seg ≠ seg'
      ∧ seg.shown = seg'.shown ∧ post.map PathSegment.shown = post'.map PathSegment.shown := by
  induction p generalizing q with
  | nil => exact absurd (List.map_eq_nil_iff.mp h.symm).symm hne
  | cons seg p ih =>
      cases q with
      | nil => simp at h
      | cons seg' q =>
          rw [List.map_cons, List.map_cons, List.cons.injEq] at h
          by_cases hseg : seg = seg'
          · subst hseg
            obtain ⟨pre, s, s', post, post', rfl, rfl, hparts⟩ := ih (fun he => hne (by rw [he])) h.2
            exact ⟨seg :: pre, s, s', post, post', rfl, rfl, hparts⟩
          · exact ⟨[], seg, seg', p, q, rfl, rfl, hseg, h⟩

/-- A pointer names one path of the diff, and a rule for it drops the changes of no other. -/
structure OneFieldOnly (desired live : Manifest) (listMaps : ListMapKeys) : Prop where
  pointers : ∀ c ∈ (diff desired live listMaps).changes, ∀ c' ∈ (diff desired live listMaps).changes,
    c.path ≠ c'.path → pathToJsonPointer c.path ≠ pathToJsonPointer c'.path
  rules : ∀ p : String, ∀ c ∈ (diff desired live listMaps).changes,
    ∀ c' ∈ (diff desired live listMaps).changes,
    c ∉ ((⟨[.jsonPointer p]⟩ : IgnoreRules).apply (diff desired live listMaps) live).changes →
    c' ∉ ((⟨[.jsonPointer p]⟩ : IgnoreRules).apply (diff desired live listMaps) live).changes →
    c.path = c'.path

omit [FloatText] [YamlText] in
/-- A rule for a pointer drops the changes whose path has that pointer. -/
theorem dropped_iff {diff : Diff} {live : Manifest} {p : String} {c : Change}
    (hc : c ∈ diff.changes) : c ∉ ((⟨[.jsonPointer p]⟩ : IgnoreRules).apply diff live).changes ↔
      pathToJsonPointer c.path = p := by
  rw [IgnoreRules.mem_apply]
  simp [hc, IgnoreRules.matches, IgnoreRule.matches]

/--
**When a pointer rule removes one field only.**

For every two manifests: the changes with distinct paths have distinct pointers, and no rule
for a pointer drops changes of two paths, if and only if there are no two parts of one
place that are shown alike (two elements of a list-map with one value for the first key,
say) and that differ at places shown alike.
-/
theorem one_field_only_iff (desired live : Manifest) (listMaps : ListMapKeys) :
    OneFieldOnly desired live listMaps ↔ ¬ TwinsIn desired live listMaps := by
  constructor
  · rintro h ⟨pre, seg, seg', post, post', htwins⟩
    obtain ⟨c, hc, hpath⟩ := exists_change_iff.mpr htwins.differs
    obtain ⟨c', hc', hpath'⟩ := exists_change_iff.mpr htwins.differs'
    refine h.pointers c hc c' hc' ?_ ?_
    · rw [hpath, hpath']
      intro he
      exact htwins.apart (List.cons.inj (List.append_cancel_left he)).1
    · rw [hpath, hpath', pathToJsonPointer_inj, List.map_append, List.map_append, List.map_cons,
        List.map_cons, htwins.alike, htwins.below]
  · intro hno
    have hpointers : ∀ c ∈ (diff desired live listMaps).changes,
        ∀ c' ∈ (diff desired live listMaps).changes,
        c.path ≠ c'.path → pathToJsonPointer c.path ≠ pathToJsonPointer c'.path := by
      intro c hc c' hc' hne hsame
      obtain ⟨pre, seg, seg', post, post', hp, hp', hapart, halike, hbelow⟩ :=
        exists_parting hne (pathToJsonPointer_inj.mp hsame)
      exact hno ⟨pre, seg, seg', post, post', hapart, halike, hbelow,
        hp ▸ exists_change_iff.mp ⟨c, hc, rfl⟩, hp' ▸ exists_change_iff.mp ⟨c', hc', rfl⟩⟩
    refine ⟨hpointers, fun p c hc c' hc' hdrop hdrop' => ?_⟩
    by_contra hne
    rw [dropped_iff hc] at hdrop
    rw [dropped_iff hc'] at hdrop'
    exact hpointers c hc c' hc' hne (hdrop.trans hdrop'.symm)

end

/-! ## Port 53, twice -/

/-- A name server: port 53 for each of two protocols, with their node ports. -/
def nameServer (tcp udp : UInt64) : Manifest :=
  let port (protocol : String) (nodePort : UInt64) : Value :=
    .mapping [(.string "port", .number (.posInt 53)), (.string "protocol", .string protocol),
      (.string "nodePort", .number (.posInt nodePort))]
  ⟨⟨"", "v1", "Service"⟩, "dns", some "prod", (@ManifestBody.fromValue .ofBits (.mapping
    [(.string "spec", .mapping [(.string "ports",
      .sequence [port "TCP" tcp, port "UDP" udp])])])).get rfl⟩

def nodePortPath (protocol : String) : ValuePath :=
  [.field "spec", .field "ports", .keyed [("port", "53"), ("protocol", protocol)],
    .field "nodePort"]

/-- A rule for the node port of one of them drops the changes of both. -/
theorem node_ports_share_a_pointer :
    ¬ @OneFieldOnly .ofBits .sample (nameServer 30053 30053) (nameServer 31001 31002) .defaults := by
  intro h
  have hpaths : (@diff .ofBits .sample (nameServer 30053 30053) (nameServer 31001 31002)
      .defaults).changes.map Change.path = ["TCP", "UDP"].map nodePortPath := by decide
  have hchange : ∀ protocol ∈ ["TCP", "UDP"], ∃ c ∈ (@diff .ofBits .sample (nameServer 30053 30053)
      (nameServer 31001 31002) .defaults).changes, c.path = nodePortPath protocol := by
    intro protocol hp
    refine List.mem_map.mp ?_
    rw [hpaths]
    exact List.mem_map_of_mem hp
  obtain ⟨c, hc, hpath⟩ := hchange "TCP" (by decide)
  obtain ⟨c', hc', hpath'⟩ := hchange "UDP" (by decide)
  refine @OneFieldOnly.pointers .ofBits .sample _ _ _ h c hc c' hc' ?_ ?_
  · rw [hpath, hpath']
    decide
  · rw [hpath, hpath']
    decide

end SynchrotronCD
