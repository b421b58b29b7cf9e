import SynchrotronCD.Diff.Congruence

/-!
# `manifests_equivalent`

Two manifests are equivalent when their stripped bodies are congruent. On bodies
with plain keys this is an equivalence relation. Reordering a registered list-map
with distinct keys stays within a class, except inside a field by which an
enclosing list-map tells its own elements apart: there it changes the text of
that key, and the element is another one.
-/

namespace SynchrotronCD

/-! ## Bodies with keys, stripped and changed -/

theorem Value.KeyedBy.removeAll {K : Value → Prop} (names : List String) :
    ∀ {kvs : List (Value × Value)}, (Value.mapping kvs).KeyedBy K →
      (Value.mapping
        (names.foldl (fun m k => removeEntry (.string k) m) kvs)).KeyedBy K := by
  induction names with
  | nil => intro kvs h; exact h
  | cons name names ih => intro kvs h; exact ih (h.remove _)

theorem Value.KeyedBy.stripMetadata {K : Value → Prop} {kvs : List (Value × Value)}
    (h : (Value.mapping kvs).KeyedBy K) : (Value.mapping (stripMetadata kvs)).KeyedBy K := by
  unfold SynchrotronCD.stripMetadata
  split
  · rename_i fields he
    obtain ⟨k', hm, -⟩ := entry_mem he
    have hfields : (Value.mapping fields).KeyedBy K := h.part (List.mem_map_of_mem hm)
    exact h.set (hfields.removeAll _) _
  · exact h

theorem Value.KeyedBy.strip {K : Value → Prop} {v : Value} (h : v.KeyedBy K) :
    (stripExcluded v).KeyedBy K := by
  cases v with
  | mapping kvs => exact h.stripMetadata.remove _
  | null | bool | number | string | sequence | tagged => exact h

theorem Value.KeyedBy.replaceElement {K : Value → Prop} {v w : Value} {pre post : List Value}
    (h : (Value.sequence (pre ++ v :: post)).KeyedBy K) (hw : w.KeyedBy K) :
    (Value.sequence (pre ++ w :: post)).KeyedBy K := by
  cases h with
  | sequence elements =>
      refine .sequence fun x hx => ?_
      rcases List.mem_append.mp hx with hx | hx
      · exact elements x (List.mem_append_left _ hx)
      · rcases List.mem_cons.mp hx with rfl | hx
        · exact hw
        · exact elements x (List.mem_append_right _ (List.mem_cons_of_mem _ hx))

theorem Value.KeyedBy.replaceValue {K : Value → Prop} {k v w : Value}
    {pre post : List (Value × Value)}
    (h : (Value.mapping (pre ++ (k, v) :: post)).KeyedBy K) (hw : w.KeyedBy K) :
    (Value.mapping (pre ++ (k, w) :: post)).KeyedBy K := by
  cases h with
  | mapping keys distinct values =>
      refine .mapping ?_ (by simpa using distinct) ?_
      · intro p hp
        rcases List.mem_append.mp hp with hp | hp
        · exact keys p (List.mem_append_left _ hp)
        · rcases List.mem_cons.mp hp with rfl | hp
          · exact keys (k, v) (by simp)
          · exact keys p (List.mem_append_right _ (List.mem_cons_of_mem _ hp))
      · intro p hp
        rcases List.mem_append.mp hp with hp | hp
        · exact values p (List.mem_append_left _ hp)
        · rcases List.mem_cons.mp hp with rfl | hp
          · exact hw
          · exact values p (List.mem_append_right _ (List.mem_cons_of_mem _ hp))

/-- A list with one element replaced is the same at the other indices. -/
theorem getElem?_replace {v w : Value} {pre post : List Value} {i : Nat} (h : i ≠ pre.length) :
    (pre ++ v :: post)[i]? = (pre ++ w :: post)[i]? := by
  rcases Nat.lt_or_ge i pre.length with hi | hi
  · rw [List.getElem?_append_left hi, List.getElem?_append_left hi]
  · rw [List.getElem?_append_right hi, List.getElem?_append_right hi]
    obtain ⟨j, hj⟩ : ∃ j, i - pre.length = j + 1 := ⟨i - pre.length - 1, by omega⟩
    rw [hj]
    rfl

/-- Manifests of one kind, with plain keys. -/
abbrev PlainManifest (gvk : Gvk) : Type :=
  { m : Manifest // m.gvk = gvk ∧ m.body.value.Plain }

theorem PlainManifest.plain {gvk : Gvk} (a : PlainManifest gvk) : (stripExcluded a.1.body.value).Plain :=
  a.2.2.strip

section

variable [FloatText] [YamlText] {gvk : Gvk} {listMaps : ListMapKeys} {path : ValuePath}

/-! ## Congruent mappings -/

/-- Mappings are congruent when they have the same keys and congruent values under each. -/
theorem congruent_mapping_iff {d l : List (Value × Value)} (hd : (Value.mapping d).Plain)
    (hl : (Value.mapping l).Plain) :
    Congruent gvk listMaps path (.mapping d) (.mapping l) ↔
      (∀ k x, (k, x) ∈ d →
        ∃ y, (k, y) ∈ l ∧ Congruent gvk listMaps (path.field (fieldName k)) x y) ∧
      (∀ k y, (k, y) ∈ l → ∃ x, (k, x) ∈ d) := by
  cases hd with
  | mapping keys distinct values =>
      cases hl with
      | mapping keys' distinct' values' =>
          refine ⟨?_, ?_⟩
          · intro h
            cases h with
            | other differ => exact absurd differ (by simp [sameShape])
            | parts _ both added removed =>
                refine ⟨fun k x hm => ?_, fun k y hm => ?_⟩
                · have hbes : Beside gvk listMaps path (.mapping d) (.mapping l)
                      ⟨.field (fieldName k), some x, entry l k⟩ := .desiredKey hm
                  cases he : entry l k with
                  | none =>
                      rw [he] at hbes
                      exact (added _ _ hbes).elim
                  | some y =>
                      rw [he] at hbes
                      exact ⟨y, (entry_eq_some keys' distinct' (keys _ hm)).mp he,
                        both _ _ _ hbes⟩
                · cases he : entry d k with
                  | none => exact (removed _ _ (Beside.liveKey hm he)).elim
                  | some x => exact ⟨x, (entry_eq_some keys distinct (keys' _ hm)).mp he⟩
          · intro hboth
            obtain ⟨hall, hback⟩ := hboth
            refine .ofSlots rfl fun s hs => ?_
            cases hs with
            | @desiredKey _ _ p mem =>
                obtain ⟨y, hy, hc⟩ := hall p.1 p.2 mem
                exact Or.inr ⟨p.2, y, rfl, (entry_eq_some keys' distinct' (keys _ mem)).mpr hy, hc⟩
            | @liveKey _ _ p mem absent =>
                obtain ⟨x, hx⟩ := hback p.1 p.2 mem
                rw [(entry_eq_some keys distinct (keys' _ mem)).mpr hx] at absent
                exact absurd absent (by simp)

/-! ## Stripping -/

theorem Congruent.remove {d l : List (Value × Value)} (hd : (Value.mapping d).Plain)
    (hl : (Value.mapping l).Plain) {k : Value} (hk : k.plainKey = true)
    (h : Congruent gvk listMaps path (.mapping d) (.mapping l)) :
    Congruent gvk listMaps path (.mapping (removeEntry k d)) (.mapping (removeEntry k l)) := by
  rw [congruent_mapping_iff (hd.remove k) (hl.remove k)]
  rw [congruent_mapping_iff hd hl] at h
  cases hd with
  | mapping keys distinct values =>
      cases hl with
      | mapping keys' distinct' values' =>
          obtain ⟨hall, hback⟩ := h
          refine ⟨fun k' x hm => ?_, fun k' y hm => ?_⟩
          · obtain ⟨hm, hne⟩ := (mem_removeEntry keys hk distinct).mp hm
            obtain ⟨y, hy, hc⟩ := hall k' x hm
            exact ⟨y, (mem_removeEntry keys' hk distinct').mpr ⟨hy, hne⟩, hc⟩
          · obtain ⟨hm, hne⟩ := (mem_removeEntry keys' hk distinct').mp hm
            obtain ⟨x, hx⟩ := hback k' y hm
            exact ⟨x, (mem_removeEntry keys hk distinct).mpr ⟨hx, hne⟩⟩

theorem Congruent.removeAll (names : List String) : ∀ {d l : List (Value × Value)},
    (Value.mapping d).Plain → (Value.mapping l).Plain →
    Congruent gvk listMaps path (.mapping d) (.mapping l) →
    Congruent gvk listMaps path
      (.mapping (names.foldl (fun m k => removeEntry (.string k) m) d))
      (.mapping (names.foldl (fun m k => removeEntry (.string k) m) l)) := by
  induction names with
  | nil => intro d l _ _ h; exact h
  | cons name names ih =>
      intro d l hd hl h
      exact ih (hd.remove _) (hl.remove _) (h.remove hd hl rfl)

theorem Congruent.set {d l : List (Value × Value)} (hd : (Value.mapping d).Plain)
    (hl : (Value.mapping l).Plain) {k v w : Value} (hk : k.plainKey = true) (hv : v.Plain)
    (hw : w.Plain) (hvw : Congruent gvk listMaps (path.field (fieldName k)) v w)
    (h : Congruent gvk listMaps path (.mapping d) (.mapping l)) :
    Congruent gvk listMaps path (.mapping (setEntry k v d)) (.mapping (setEntry k w l)) := by
  rw [congruent_mapping_iff (hd.set hv k) (hl.set hw k)]
  rw [congruent_mapping_iff hd hl] at h
  cases hd with
  | mapping keys distinct values =>
      cases hl with
      | mapping keys' distinct' values' =>
          obtain ⟨hall, hback⟩ := h
          refine ⟨fun k' x hm => ?_, fun k' y hm => ?_⟩
          · rcases (mem_setEntry keys hk distinct).mp hm with ⟨hm, hne⟩ | ⟨rfl, rfl, hkey⟩
            · obtain ⟨y, hy, hc⟩ := hall k' x hm
              exact ⟨y, (mem_setEntry keys' hk distinct').mpr (Or.inl ⟨hy, hne⟩), hc⟩
            · obtain ⟨u, hu⟩ := mem_of_key hkey
              obtain ⟨y, hy, -⟩ := hall _ u hu
              exact ⟨w, (mem_setEntry keys' hk distinct').mpr (Or.inr ⟨rfl, rfl, mem_keys hy⟩), hvw⟩
          · rcases (mem_setEntry keys' hk distinct').mp hm with ⟨hm, hne⟩ | ⟨rfl, rfl, hkey⟩
            · obtain ⟨x, hx⟩ := hback k' y hm
              exact ⟨x, (mem_setEntry keys hk distinct).mpr (Or.inl ⟨hx, hne⟩)⟩
            · obtain ⟨u, hu⟩ := mem_of_key hkey
              obtain ⟨x, hx⟩ := hback _ u hu
              exact ⟨v, (mem_setEntry keys hk distinct).mpr (Or.inr ⟨rfl, rfl, mem_keys hx⟩)⟩

theorem Congruent.mapping_right {d : List (Value × Value)} {l : Value}
    (h : Congruent gvk listMaps path (.mapping d) l) : ∃ l', l = .mapping l' := by
  cases h with
  | parts same => cases l <;> simp_all [sameShape]
  | other differ equal => cases l <;> simp_all [sameShape, Value.beq]

theorem Congruent.mapping_left {d : Value} {l : List (Value × Value)}
    (h : Congruent gvk listMaps path d (.mapping l)) : ∃ d', d = .mapping d' := by
  cases h with
  | parts same => cases d <;> simp_all [sameShape]
  | other differ equal => cases d <;> simp_all [sameShape, Value.beq]

theorem Congruent.stripMetadata {d l : List (Value × Value)} (hd : (Value.mapping d).Plain)
    (hl : (Value.mapping l).Plain) (h : Congruent gvk listMaps path (.mapping d) (.mapping l)) :
    Congruent gvk listMaps path (.mapping (stripMetadata d)) (.mapping (stripMetadata l)) := by
  have hmaps := (congruent_mapping_iff hd hl).mp h
  have find : ∀ {kvs : List (Value × Value)}, (Value.mapping kvs).Plain → ∀ v,
      entry kvs (.string "metadata") = some v ↔ (.string "metadata", v) ∈ kvs := by
    intro kvs hp v
    cases hp with
    | mapping keys distinct values => exact entry_eq_some keys distinct rfl
  unfold SynchrotronCD.stripMetadata
  cases hm : entry d (.string "metadata") with
  | none =>
      have hm' : entry l (.string "metadata") = none := by
        cases hm' : entry l (.string "metadata") with
        | none => rfl
        | some y =>
            obtain ⟨x, hx⟩ := hmaps.2 _ y ((find hl y).mp hm')
            rw [(find hd x).mpr hx] at hm
            exact absurd hm (by simp)
      rw [hm']
      exact h
  | some x =>
      obtain ⟨y, hy, hxy⟩ := hmaps.1 _ x ((find hd x).mp hm)
      have hxp : x.Plain := hd.part (List.mem_map_of_mem ((find hd x).mp hm))
      have hyp : y.Plain := hl.part (List.mem_map_of_mem hy)
      rw [(find hl y).mpr hy]
      -- `metadata` is a mapping on both sides or on neither
      cases x with
      | mapping fields =>
          obtain ⟨fields', rfl⟩ := hxy.mapping_right
          refine Congruent.set hd hl rfl (hxp.removeAll _) (hyp.removeAll _) ?_ h
          exact Congruent.removeAll _ hxp hyp hxy
      | null | bool | number | string | sequence | tagged =>
          cases y with
          | mapping fields' =>
              obtain ⟨_, hno⟩ := hxy.mapping_left
              exact absurd hno (by simp)
          | null | bool | number | string | sequence | tagged => exact h

/-- Congruent bodies are congruent once stripped. -/
theorem Congruent.strip {d l : Value} (hd : d.Plain) (hl : l.Plain)
    (h : Congruent gvk listMaps path d l) :
    Congruent gvk listMaps path (stripExcluded d) (stripExcluded l) := by
  cases d with
  | mapping d =>
      obtain ⟨l, rfl⟩ := h.mapping_right
      exact (h.stripMetadata hd hl).remove hd.stripMetadata hl.stripMetadata rfl
  | null | bool | number | string | sequence | tagged =>
      cases l with
      | mapping l =>
          obtain ⟨_, hno⟩ := h.mapping_left
          exact absurd hno (by simp)
      | null | bool | number | string | sequence | tagged => exact h

/-! ## Reordering -/

/-- One list-map with distinct keys somewhere in a value is reordered. The list is not part of
a field by which an enclosing list-map tells its elements apart: their keys stay. -/
inductive Reordered (gvk : Gvk) (listMaps : ListMapKeys) : ValuePath → Value → Value → Prop
  | here {path : ValuePath} {keys : List String} {xs ys : List Value}
      (registered : listMaps.keysFor gvk path = some keys)
      (distinct : (xs.map fun x => extractKeys x keys).Nodup) (perm : xs.Perm ys) :
      Reordered gvk listMaps path (.sequence xs) (.sequence ys)
  | field {path : ValuePath} {k v w : Value} {pre post : List (Value × Value)}
      (inner : Reordered gvk listMaps (path.field (fieldName k)) v w) :
      Reordered gvk listMaps path (.mapping (pre ++ (k, v) :: post))
        (.mapping (pre ++ (k, w) :: post))
  | index {path : ValuePath} {v w : Value} {pre post : List Value}
      (positional : listMaps.keysFor gvk path = none)
      (inner : Reordered gvk listMaps (path.index pre.length) v w) :
      Reordered gvk listMaps path (.sequence (pre ++ v :: post)) (.sequence (pre ++ w :: post))
  | keyed {path : ValuePath} {keys : List String} {v w : Value} {pre post : List Value}
      (registered : listMaps.keysFor gvk path = some keys)
      (sameKeys : extractKeys w keys = extractKeys v keys)
      (inner : Reordered gvk listMaps (path.keyed (extractKeys v keys)) v w) :
      Reordered gvk listMaps path (.sequence (pre ++ v :: post)) (.sequence (pre ++ w :: post))

theorem Reordered.plain {v w : Value} (h : Reordered gvk listMaps path v w) :
    v.Plain → w.Plain := by
  induction h with
  | here registered distinct perm =>
      intro hv
      exact .sequence fun y hy => hv.part (perm.mem_iff.mpr hy)
  | field inner ih =>
      intro hv
      exact hv.replaceValue (ih (hv.part (by simp [Value.parts])))
  | index positional inner ih =>
      intro hv
      exact hv.replaceElement (ih (hv.part (by simp [Value.parts])))
  | keyed registered sameKeys inner ih =>
      intro hv
      exact hv.replaceElement (ih (hv.part (by simp [Value.parts])))

/-- At most one element has a key when all keys are distinct, so that its bucket does not
change with the order. -/
theorem withKey_perm {keys : List String} {key : List (String × String)} {xs ys : List Value}
    (distinct : (xs.map fun x => extractKeys x keys).Nodup) (perm : xs.Perm ys) :
    withKey keys key xs = withKey keys key ys := by
  have hp : (withKey keys key xs).Perm (withKey keys key ys) := perm.filter _
  have hlen : (withKey keys key xs).length ≤ 1 := by
    have hnd : ((withKey keys key xs).map fun x => extractKeys x keys).Nodup :=
      (List.Sublist.map _ List.filter_sublist).nodup distinct
    match hw : withKey keys key xs, hnd with
    | [], _ => simp
    | [x], _ => simp
    | x :: y :: rest, hnd =>
        have hx := (mem_withKey.mp (hw ▸ List.mem_cons_self : x ∈ withKey keys key xs)).2
        have hy := (mem_withKey.mp
          (hw ▸ List.mem_cons_of_mem _ List.mem_cons_self : y ∈ withKey keys key xs)).2
        rw [List.map_cons, List.nodup_cons] at hnd
        exact absurd (by simp [hx, hy]) hnd.1
  match hw : withKey keys key xs, hlen with
  | [], _ => rw [hw] at hp; exact hp.nil_eq
  | [x], _ => rw [hw] at hp; exact hp.singleton_eq

/-- A slot of a list in which one element gives way to a congruent one. -/
theorem slot_replace {pre post : List Value} {v w : Value} {seg : PathSegment} {i : Nat}
    (plain : ∀ x, (pre ++ v :: post)[i]? = some x → x.Plain)
    (hvw : i = pre.length → Congruent gvk listMaps (path.push seg) v w) :
    (⟨seg, (pre ++ v :: post)[i]?, (pre ++ w :: post)[i]?⟩ : Slot).vacant ∨
      ∃ x y, (pre ++ v :: post)[i]? = some x ∧ (pre ++ w :: post)[i]? = some y ∧
        Congruent gvk listMaps (path.push seg) x y := by
  by_cases hi : i = pre.length
  · subst hi
    exact Or.inr ⟨v, w, by simp, by simp, hvw rfl⟩
  · rw [← getElem?_replace (v := v) (w := w) hi]
    exact slot_self _ plain _

/-- A mapping in which the value of one entry gives way to a congruent one. -/
theorem congruent_replace {pre post : List (Value × Value)} {k v w : Value}
    (hv : (Value.mapping (pre ++ (k, v) :: post)).Plain)
    (hw : (Value.mapping (pre ++ (k, w) :: post)).Plain)
    (hvw : Congruent gvk listMaps (path.push (.field (fieldName k))) v w) :
    Congruent gvk listMaps path (.mapping (pre ++ (k, v) :: post))
      (.mapping (pre ++ (k, w) :: post)) := by
  rw [congruent_mapping_iff hv hw]
  refine ⟨fun k' x hm => ?_, fun k' y hm => ?_⟩
  · rcases List.mem_append.mp hm with hm' | hm'
    · exact ⟨x, List.mem_append_left _ hm', .refl (hv.part (List.mem_map_of_mem hm))⟩
    · rcases List.mem_cons.mp hm' with heq | hm'
      · obtain ⟨rfl, rfl⟩ := Prod.mk.inj heq
        exact ⟨w, by simp, hvw⟩
      · exact ⟨x, List.mem_append_right _ (List.mem_cons_of_mem _ hm'),
          .refl (hv.part (List.mem_map_of_mem hm))⟩
  · rcases List.mem_append.mp hm with hm' | hm'
    · exact ⟨y, List.mem_append_left _ hm'⟩
    · rcases List.mem_cons.mp hm' with heq | hm'
      · obtain ⟨rfl, rfl⟩ := Prod.mk.inj heq
        exact ⟨v, by simp⟩
      · exact ⟨y, List.mem_append_right _ (List.mem_cons_of_mem _ hm')⟩

/-- **A reordered value is congruent to the original.** -/
theorem Reordered.congruent {v w : Value} (h : Reordered gvk listMaps path v w) :
    v.Plain → Congruent gvk listMaps path v w := by
  induction h with
  | @here path keys xs ys registered distinct perm =>
      intro hv
      refine .ofSlots rfl fun s hs => ?_
      cases hs with
      | index positional i => rw [registered] at positional; exact absurd positional (by simp)
      | keyed registered' key i =>
          obtain rfl := Option.some.inj (registered.symm.trans registered')
          rw [withKey_perm distinct perm]
          refine slot_self _ (fun x hx => ?_) _
          exact hv.part (perm.mem_iff.mpr (mem_withKey.mp (List.mem_of_getElem? hx)).1)
  | @field path k v w pre post inner ih =>
      intro hv
      have hr : Reordered gvk listMaps path (.mapping (pre ++ (k, v) :: post))
          (.mapping (pre ++ (k, w) :: post)) := .field inner
      exact congruent_replace hv (hr.plain hv) (ih (hv.part (by simp [Value.parts])))
  | @index path v w pre post positional inner ih =>
      intro hv
      have hvp : v.Plain := hv.part (by simp [Value.parts])
      refine .ofSlots rfl fun s hs => ?_
      cases hs with
      | keyed registered key i => rw [registered] at positional; exact absurd positional (by simp)
      | index _ i =>
          exact slot_replace (fun x hx => hv.part (List.mem_of_getElem? hx)) fun hi => hi ▸ ih hvp
  | @keyed path keys v w pre post registered sameKeys inner ih =>
      intro hv
      have hvp : v.Plain := hv.part (by simp [Value.parts])
      have hbucket : ∀ key (i : Nat) x, (withKey keys key (pre ++ v :: post))[i]? = some x → x.Plain :=
        fun key i x hx => hv.part (mem_withKey.mp (List.mem_of_getElem? hx)).1
      refine .ofSlots rfl fun s hs => ?_
      cases hs with
      | index positional i => rw [registered] at positional; exact absurd positional (by simp)
      | keyed registered' key i =>
          obtain rfl := Option.some.inj (registered.symm.trans registered')
          by_cases hkey : extractKeys v keys = key
          · subst hkey
            -- the element is in this bucket, before and after
            have split : ∀ u, extractKeys u keys = extractKeys v keys →
                withKey keys (extractKeys v keys) (pre ++ u :: post) =
                  withKey keys (extractKeys v keys) pre ++
                    u :: withKey keys (extractKeys v keys) post := by
              intro u hu
              simp [withKey, hu]
            have hb := hbucket (extractKeys v keys) i
            rw [split v rfl] at hb ⊢
            rw [split w sameKeys]
            exact slot_replace hb fun _ => ih hvp
          · have hsame : withKey keys key (pre ++ w :: post) = withKey keys key (pre ++ v :: post) := by
              simp [withKey, sameKeys, hkey]
            rw [hsame]
            exact slot_self _ (hbucket key i) _

/-! ## Manifests -/

theorem equivalent_iff {desired live : Manifest} :
    manifestsEquivalent desired live listMaps = true ↔
      Congruent desired.gvk listMaps .root (stripExcluded desired.body.value)
        (stripExcluded live.body.value) := by
  rw [congruent_iff, ← List.isEmpty_iff]
  rfl

theorem equivalent_iff_plain {a b : PlainManifest gvk} :
    manifestsEquivalent a.1 b.1 listMaps = true ↔
      Congruent gvk listMaps .root (stripExcluded a.1.body.value)
        (stripExcluded b.1.body.value) := by
  rw [equivalent_iff, a.2.1]

theorem equivalent_equivalence : Equivalence fun a b : PlainManifest gvk =>
    manifestsEquivalent a.1 b.1 listMaps = true where
  refl a := equivalent_iff_plain.mpr (.refl a.plain)
  symm {a b} h := equivalent_iff_plain.mpr ((equivalent_iff_plain.mp h).symm a.plain b.plain)
  trans {a b c} h h' := equivalent_iff_plain.mpr ((equivalent_iff_plain.mp h).trans
    (equivalent_iff_plain.mp h') a.plain b.plain c.plain)

/-- Any number of reorderings leads to a congruent body. -/
theorem reordered_congruent {v w : Value} (hv : v.Plain)
    (h : Relation.ReflTransGen (Reordered gvk listMaps path) v w) :
    w.Plain ∧ Congruent gvk listMaps path v w := by
  induction h with
  | refl => exact ⟨hv, .refl hv⟩
  | tail _ hstep ih =>
      obtain ⟨hu, hc⟩ := ih
      exact ⟨hstep.plain hu, hc.trans (hstep.congruent hu) hv hu (hstep.plain hu)⟩

/--
**An empty diff decides the congruence.** Among manifests of a kind with plain
keys it is an equivalence relation, and it does not see how the list-maps with
distinct keys are ordered.
-/
theorem equivalent_is_congruence (gvk : Gvk) (listMaps : ListMapKeys) :
    (∀ desired live : Manifest, manifestsEquivalent desired live listMaps = true ↔
      Congruent desired.gvk listMaps .root (stripExcluded desired.body.value)
        (stripExcluded live.body.value)) ∧
    (Equivalence fun a b : PlainManifest gvk => manifestsEquivalent a.1 b.1 listMaps = true) ∧
    ∀ a b c : PlainManifest gvk,
      Relation.ReflTransGen (Reordered gvk listMaps .root) a.1.body.value b.1.body.value →
      manifestsEquivalent a.1 c.1 listMaps = manifestsEquivalent b.1 c.1 listMaps ∧
      manifestsEquivalent c.1 a.1 listMaps = manifestsEquivalent c.1 b.1 listMaps := by
  refine ⟨fun _ _ => equivalent_iff, equivalent_equivalence, ?_⟩
  intro a b c hab
  have hrel : manifestsEquivalent a.1 b.1 listMaps = true :=
    equivalent_iff_plain.mpr ((reordered_congruent a.2.2 hab).2.strip a.2.2 b.2.2)
  have he : Equivalence fun a b : PlainManifest gvk =>
      manifestsEquivalent a.1 b.1 listMaps = true := equivalent_equivalence
  refine ⟨Bool.eq_iff_iff.mpr ⟨?_, ?_⟩, Bool.eq_iff_iff.mpr ⟨?_, ?_⟩⟩
  · exact fun h => he.trans (he.symm hrel) h
  · exact fun h => he.trans hrel h
  · exact fun h => he.trans h hrel
  · exact fun h => he.trans h (he.symm hrel)

end

/-! ## Where it is no equivalence, and where the order shows -/

/-- The texts of the keys and key fields in the runs below. -/
@[reducible] def YamlText.sample : YamlText where
  text
    | .sequence [.mapping [(_, .string a)], .mapping [(_, .string b)]] =>
      "- n: " ++ a ++ "\n- n: " ++ b
    | _ => ""
  debug
    | .number (.float x) => if x.bits = 0 then "Number(0.0)" else "Number(-0.0)"
    | _ => ""

/-- A manifest with this body. -/
def sampleManifest (v : Value)
    (h : (@ManifestBody.fromValue .ofBits v).isSome = true) : Manifest :=
  ⟨⟨"", "v1", "Demo"⟩, "demo", none, (@ManifestBody.fromValue .ofBits v).get h⟩

/-- `{n: s}` -/
def sampleItem (s : String) : Value := .mapping [(.string "n", .string s)]

/-- A body with a list of two items under the key zero, positive or negative. -/
def underZero (bits : UInt64) (a b : String) : Value :=
  .mapping [(.number (.float ⟨bits⟩), .sequence [sampleItem a, sampleItem b])]

/-- A body with one item whose key field `id` is a list of two items. -/
def underKeyField (a b : String) : Value :=
  .mapping [(.string "items", .sequence
    [.mapping [(.string "id", .sequence [sampleItem a, sampleItem b])]])]

def sampleListMaps : ListMapKeys :=
  ⟨∅, [⟨"Number(0.0)", ["n"]⟩, ⟨"items", ["id"]⟩, ⟨"items.*.id", ["n"]⟩]⟩

/-- The two zeros are one key, of which the registry knows one name only: the compare depends
on whose name it takes. And a list-map with distinct keys that is reordered inside a key field
changes the key. -/
theorem zeros_and_key_fields_show :
    (@manifestsEquivalent .ofBits .sample (sampleManifest (underZero 0 "1" "2") rfl)
        (sampleManifest (underZero 0x8000000000000000 "2" "1") rfl) sampleListMaps = true ∧
      @manifestsEquivalent .ofBits .sample
        (sampleManifest (underZero 0x8000000000000000 "2" "1") rfl)
        (sampleManifest (underZero 0 "1" "2") rfl) sampleListMaps = false) ∧
    (sampleListMaps.keysFor ⟨"", "v1", "Demo"⟩
        [.field "items", .keyed [("id", "- n: 1\n- n: 2")], .field "id"] = some ["n"] ∧
      ([sampleItem "1", sampleItem "2"].map
        fun x => @extractKeys .ofBits .sample x ["n"]).Nodup ∧
      @manifestsEquivalent .ofBits .sample (sampleManifest (underKeyField "1" "2") rfl)
        (sampleManifest (underKeyField "1" "2") rfl) sampleListMaps = true ∧
      @manifestsEquivalent .ofBits .sample (sampleManifest (underKeyField "1" "2") rfl)
        (sampleManifest (underKeyField "2" "1") rfl) sampleListMaps = false) := by
  refine ⟨⟨?_, ?_⟩, ?_, ?_, ?_, ?_⟩ <;> decide

end SynchrotronCD
