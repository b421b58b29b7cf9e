import SynchrotronCD.Diff.Equivalent
import SynchrotronCD.Diff.Patch

/-!
# Patching live gives desired

The patch is followed down both bodies at once. An element of a list-map must
come out with the key it went in with, or the compare would not find it again.
Its key fields are written as text, so that what is needed of a key field that
is itself a mapping or a list is this: two such values with one text differ at
most in the string they end with, which is all that trimming can hide
(`EqualButEnd`). Patching one into the other then gives one of the two.
-/

namespace SynchrotronCD

/-- Equal, but for the string at the very end. -/
inductive EqualButEnd : Value → Value → Prop
  | refl (v : Value) : EqualButEnd v v
  | string (s t : String) : EqualButEnd (.string s) (.string t)
  | tagged (tag : String) {v w : Value} (inner : EqualButEnd v w) :
      EqualButEnd (.tagged tag v) (.tagged tag w)
  | sequence (xs : List Value) {v w : Value} (last : EqualButEnd v w) :
      EqualButEnd (.sequence (xs ++ [v])) (.sequence (xs ++ [w]))
  | mapping (kvs : List (Value × Value)) (k : Value) {v w : Value} (last : EqualButEnd v w) :
      EqualButEnd (.mapping (kvs ++ [(k, v)])) (.mapping (kvs ++ [(k, w)]))

theorem eq_singleton_of_nodup {α : Type*} {l : List α} {a : α} (h : l.Nodup) (ha : a ∈ l)
    (hall : ∀ b ∈ l, b = a) : l = [a] := by
  have hrep := List.eq_replicate_of_mem hall
  rw [hrep] at h ⊢
  have hlen : l.length = 1 :=
    Nat.le_antisymm (List.nodup_replicate.mp h) (List.length_pos_of_mem ha)
  rw [hlen]
  rfl

section

variable [FloatText] [YamlText] {gvk : Gvk} {listMaps : ListMapKeys} {cs : List Change}
  {path : ValuePath}

/-! ## Values that are equal but for their end -/

theorem patchEntries_append (kvs kvs' : List (Value × Value)) :
    patchEntries gvk listMaps cs (kvs ++ kvs') path =
      patchEntries gvk listMaps cs kvs path ++ patchEntries gvk listMaps cs kvs' path := by
  induction kvs with
  | nil => rw [patchEntries]; rfl
  | cons p kvs ih =>
      rw [List.cons_append, patchEntries_cons, patchEntries_cons, ih, List.append_assoc]

theorem patchKeyed_append (xs ys : List Value) (keys : List String) :
    patchKeyed gvk listMaps cs (xs ++ ys) keys path =
      patchKeyed gvk listMaps cs xs keys path ++ patchKeyed gvk listMaps cs ys keys path := by
  induction xs with
  | nil => rw [patchKeyed]; rfl
  | cons x xs ih =>
      rw [List.cons_append, patchKeyed_cons, patchKeyed_cons, ih, List.append_assoc]

/-- A part that is the same on both sides stays. -/
theorem Covers.same_part {d l : Value} (hcov : Covers gvk listMaps cs path d l)
    (hd : Addressable gvk listMaps path d) (hl : Addressable gvk listMaps path l)
    {seg : PathSegment} {x : Value} (hs : Beside gvk listMaps path d l ⟨seg, some x, some x⟩) :
    patchAt gvk listMaps cs x (path.push seg) = some x :=
  (hcov.child hd hl hs).unchanged (.refl (hs.addressable_desired hd hl).strings.plain)

/-- With another last element, of other keys, the keys of the last element are not found. -/
theorem findKeyed_last_none {keys : List String} {pre : List Value} {a b : Value}
    (hnd : ((pre ++ [a]).map fun x => extractKeys x keys).Nodup)
    (hne : extractKeys b keys ≠ extractKeys a keys) :
    findKeyed keys (extractKeys a keys) (pre ++ [b]) = none := by
  rw [findKeyed, List.find?_eq_none]
  intro x hx hkey
  have hxk : extractKeys x keys = extractKeys a keys := by simpa using hkey
  rcases List.mem_append.mp hx with hx | hx
  · rw [List.map_append, List.nodup_append'] at hnd
    exact absurd (List.mem_map.mpr ⟨a, List.mem_singleton_self a, hxk.symm⟩)
      (hnd.2.2 (List.mem_map_of_mem hx))
  · obtain rfl := List.mem_singleton.mp hx
    exact hne hxk

section

variable {pre : List Value} {v w : Value}
  (hd : Addressable gvk listMaps path (.sequence (pre ++ [v])))
  (hl : Addressable gvk listMaps path (.sequence (pre ++ [w])))
  (hcov : Covers gvk listMaps cs path (.sequence (pre ++ [v])) (.sequence (pre ++ [w])))
  (ih : ∀ {p : ValuePath}, Addressable gvk listMaps p v → Addressable gvk listMaps p w →
    Covers gvk listMaps cs p v w →
    patchAt gvk listMaps cs w p = some v ∨ patchAt gvk listMaps cs w p = some w)
include hd hl hcov ih

theorem patch_last_indexed (hk : listMaps.keysFor gvk path = none) :
    patch gvk listMaps cs (.sequence (pre ++ [w])) path = .sequence (pre ++ [v]) ∨
      patch gvk listMaps cs (.sequence (pre ++ [w])) path = .sequence (pre ++ [w]) := by
  have hpre : patchIndexed gvk listMaps cs pre 0 path = pre := by
    refine patchIndexed_unchanged fun j x hx => ?_
    rw [Nat.zero_add]
    have hj := (List.getElem?_eq_some_iff.mp hx).1
    have hbes : Beside gvk listMaps path (.sequence (pre ++ [v])) (.sequence (pre ++ [w]))
        ⟨.index j, (pre ++ [v])[j]?, (pre ++ [w])[j]?⟩ := .index hk j
    rw [List.getElem?_append_left hj, List.getElem?_append_left hj, hx] at hbes
    exact hcov.same_part hd hl hbes
  have hlast : Beside gvk listMaps path (.sequence (pre ++ [v])) (.sequence (pre ++ [w]))
      ⟨.index pre.length, some v, some w⟩ := by
    have hbes : Beside gvk listMaps path (.sequence (pre ++ [v])) (.sequence (pre ++ [w]))
        ⟨.index pre.length, (pre ++ [v])[pre.length]?, (pre ++ [w])[pre.length]?⟩ := .index hk _
    simpa using hbes
  have hadd : addedFrom cs path (pre ++ [w]).length = [] := by
    rw [addedFrom_eq hk hcov hd hl]
    simp
  have hu := ih (hlast.addressable_desired hd hl) (hlast.addressable_live hd hl)
    (hcov.child hd hl hlast)
  have hp : patch gvk listMaps cs (.sequence (pre ++ [w])) path =
      .sequence (pre ++ (patchAt gvk listMaps cs w (path.index pre.length)).toList) := by
    rw [patch, hk]
    simp only [hadd, patchIndexed_append, hpre, patchIndexed_cons, Nat.zero_add, List.append_nil]
    rw [patchIndexed, List.append_nil]
  rw [hp]
  have rebuilt := fun z (hz : patchAt gvk listMaps cs w (path.index pre.length) = some z) =>
    congrArg (fun o : Option Value => Value.sequence (pre ++ o.toList)) hz
  exact hu.imp (rebuilt v) (rebuilt w)

theorem patch_last_keyed {keys : List String} (hk : listMaps.keysFor gvk path = some keys) :
    patch gvk listMaps cs (.sequence (pre ++ [w])) path = .sequence (pre ++ [v]) ∨
      patch gvk listMaps cs (.sequence (pre ++ [w])) path = .sequence (pre ++ [w]) := by
  have hdn := hd.distinct.here hk
  have hln := hl.distinct.here hk
  have hfind : ∀ {u x : Value}, ((pre ++ [u]).map fun x => extractKeys x keys).Nodup →
      x ∈ pre ++ [u] → findKeyed keys (extractKeys x keys) (pre ++ [u]) = some x :=
    fun hnd hx => (findKeyed_eq_some hnd).mpr ⟨hx, rfl⟩
  have hpre : patchKeyed gvk listMaps cs pre keys path = pre := by
    refine patchKeyed_unchanged fun x hx => ?_
    have hbes := keyed_slot hk hd hl (extractKeys x keys)
    rw [hfind hdn (List.mem_append_left _ hx), hfind hln (List.mem_append_left _ hx)] at hbes
    exact hcov.same_part hd hl hbes
  have hp : patch gvk listMaps cs (.sequence (pre ++ [w])) path =
      .sequence (pre ++ (patchAt gvk listMaps cs w (path.keyed (extractKeys w keys))).toList
        ++ addedElements cs path) := by
    rw [patch, hk]
    simp only [patchKeyed_append, hpre, patchKeyed_cons]
    rw [patchKeyed, List.append_nil]
  have hadd : ∀ u ∈ addedElements cs path, u = v ∧ extractKeys v keys ≠ extractKeys w keys := by
    intro u hu
    obtain ⟨hm, hnone⟩ := (mem_addedElements hk hcov hd hl).mp hu
    rcases List.mem_append.mp hm with hm | hm
    · rw [hfind hln (List.mem_append_left _ hm)] at hnone
      exact absurd hnone (by simp)
    · obtain rfl := List.mem_singleton.mp hm
      refine ⟨rfl, fun he => ?_⟩
      rw [he, hfind hln (List.mem_append_right _ (List.mem_singleton_self w))] at hnone
      exact absurd hnone (by simp)
  rw [hp]
  by_cases hkey : extractKeys v keys = extractKeys w keys
  · -- the last elements are one slot, and nothing is added
    have hnil : addedElements cs path = [] := by
      rw [List.eq_nil_iff_forall_not_mem]
      exact fun u hu => (hadd u hu).2 hkey
    have hbes := keyed_slot hk hd hl (extractKeys w keys)
    rw [hfind hln (List.mem_append_right _ (List.mem_singleton_self w)), ← hkey,
      hfind hdn (List.mem_append_right _ (List.mem_singleton_self v)), hkey] at hbes
    have hu := ih (hbes.addressable_desired hd hl) (hbes.addressable_live hd hl)
      (hcov.child hd hl hbes)
    rw [hnil, List.append_nil]
    have rebuilt := fun z
      (hz : patchAt gvk listMaps cs w (path.keyed (extractKeys w keys)) = some z) =>
        congrArg (fun o : Option Value => Value.sequence (pre ++ o.toList)) hz
    exact hu.imp (rebuilt v) (rebuilt w)
  · -- the last elements have different keys: one goes, the other comes in its place
    have hgone := findKeyed_last_none hln hkey
    have hbes := keyed_slot hk hd hl (extractKeys w keys)
    rw [hgone, hfind hln (List.mem_append_right _ (List.mem_singleton_self w))] at hbes
    have hv : v ∈ addedElements cs path := by
      rw [mem_addedElements hk hcov hd hl]
      exact ⟨List.mem_append_right _ (List.mem_singleton_self v),
        findKeyed_last_none hdn (Ne.symm hkey)⟩
    have hone : addedElements cs path = [v] :=
      eq_singleton_of_nodup (addedElements_nodup hk hcov hd hl).of_map hv fun u hu => (hadd u hu).1
    refine Or.inl ?_
    rw [show patchAt gvk listMaps cs w (path.keyed (extractKeys w keys)) = none from
      hcov.removed hd hl hbes, hone]
    simp

end

/-- What is the same at the end of a mapping up to the last value stays the same. -/
theorem patch_last_entry {pre : List (Value × Value)} {k v w : Value}
    (hd : Addressable gvk listMaps path (.mapping (pre ++ [(k, v)])))
    (hl : Addressable gvk listMaps path (.mapping (pre ++ [(k, w)])))
    (hcov : Covers gvk listMaps cs path (.mapping (pre ++ [(k, v)])) (.mapping (pre ++ [(k, w)])))
    (ih : ∀ {p : ValuePath}, Addressable gvk listMaps p v → Addressable gvk listMaps p w →
      Covers gvk listMaps cs p v w →
      patchAt gvk listMaps cs w p = some v ∨ patchAt gvk listMaps cs w p = some w) :
    patch gvk listMaps cs (.mapping (pre ++ [(k, w)])) path = .mapping (pre ++ [(k, v)]) ∨
      patch gvk listMaps cs (.mapping (pre ++ [(k, w)])) path = .mapping (pre ++ [(k, w)]) := by
  have find : ∀ {u k' x : Value}, Addressable gvk listMaps path (.mapping (pre ++ [(k, u)])) →
      (k', x) ∈ pre ++ [(k, u)] → entry (pre ++ [(k, u)]) k' = some x := by
    intro u k' x ha hm
    cases ha.strings with
    | mapping keys distinct values =>
        exact (entry_string_iff keys distinct (keys _ hm)).mpr hm
  have hpre : patchEntries gvk listMaps cs pre path = pre := by
    refine patchEntries_unchanged fun p hp => ?_
    have hbes : Beside gvk listMaps path (.mapping (pre ++ [(k, v)])) (.mapping (pre ++ [(k, w)]))
        ⟨.field (fieldName p.1), some p.2, entry (pre ++ [(k, w)]) p.1⟩ :=
      .desiredKey (List.mem_append_left _ hp)
    rw [find hl (List.mem_append_left _ hp)] at hbes
    exact hcov.same_part hd hl hbes
  have hlast : Beside gvk listMaps path (.mapping (pre ++ [(k, v)])) (.mapping (pre ++ [(k, w)]))
      ⟨.field (fieldName k), some v, some w⟩ := by
    have hbes : Beside gvk listMaps path (.mapping (pre ++ [(k, v)])) (.mapping (pre ++ [(k, w)]))
        ⟨.field (fieldName k), some v, entry (pre ++ [(k, w)]) k⟩ :=
      .desiredKey (List.mem_append_right pre (List.mem_singleton_self (k, v)))
    rw [find hl (List.mem_append_right _ (List.mem_singleton_self _))] at hbes
    exact hbes
  have hadd : addedFields cs path = [] := by
    rw [List.eq_nil_iff_forall_not_mem]
    rintro ⟨k', u⟩ hm
    obtain ⟨name, rfl, hc⟩ := mem_addedFields.mp hm
    have hbes := (hcov.added_iff hd hl).mp hc
    obtain ⟨hu, hnone⟩ := hbes.follow hd hl (by simp [Slot.vacant])
    -- the two sides have the same keys
    rcases List.mem_append.mp (entry_of_strings (by
      cases hd.strings with
      | mapping keys distinct values => exact keys) hu) with hm | hm
    · have := find hl (List.mem_append_left _ hm)
      exact absurd (this.symm.trans hnone) (by simp)
    · obtain ⟨rfl, -⟩ := Prod.mk.inj (List.mem_singleton.mp hm)
      have := find hl (List.mem_append_right _ (List.mem_singleton_self _))
      exact absurd (this.symm.trans hnone) (by simp)
  have hp : patch gvk listMaps cs (.mapping (pre ++ [(k, w)])) path =
      .mapping (pre ++ ((patchAt gvk listMaps cs w (path.field (fieldName k))).map
        fun u => (k, u)).toList) := by
    rw [patch, hadd, patchEntries_append, hpre, patchEntries_cons, patchEntries, List.append_nil,
      List.append_nil]
  have hu := ih (hlast.addressable_desired hd hl) (hlast.addressable_live hd hl)
    (hcov.child hd hl hlast)
  rw [hp]
  have rebuilt := fun z (hz : patchAt gvk listMaps cs w (path.field (fieldName k)) = some z) =>
    congrArg (fun o : Option Value =>
      Value.mapping (pre ++ (o.map fun u => (k, u)).toList)) hz
  exact hu.imp (rebuilt v) (rebuilt w)

/-- **Patching between two values that differ at most at their end gives one of the two.** -/
theorem EqualButEnd.patchAt {v w : Value} (h : EqualButEnd v w) : ∀ {path : ValuePath},
    Addressable gvk listMaps path v → Addressable gvk listMaps path w →
    Covers gvk listMaps cs path v w →
    SynchrotronCD.patchAt gvk listMaps cs w path = some v ∨
      SynchrotronCD.patchAt gvk listMaps cs w path = some w := by
  induction h with
  | refl v =>
      intro path hd hl hcov
      exact Or.inr (hcov.unchanged (.refl hd.strings.plain))
  | string s t =>
      intro path hd hl hcov
      rcases hcov.other rfl with ⟨-, h⟩ | h
      · exact Or.inr h
      · exact Or.inl h
  | tagged tag inner ih =>
      intro path hd hl hcov
      rcases hcov.other rfl with ⟨-, h⟩ | h
      · exact Or.inr h
      · exact Or.inl h
  | sequence xs last ih =>
      intro path hd hl hcov
      rw [hcov.inside rfl, Option.some.injEq, Option.some.injEq]
      cases hk : listMaps.keysFor gvk path with
      | none => exact patch_last_indexed hd hl hcov ih hk
      | some keys => exact patch_last_keyed hd hl hcov ih hk
  | mapping kvs k last ih =>
      intro path hd hl hcov
      rw [hcov.inside rfl, Option.some.injEq, Option.some.injEq]
      exact patch_last_entry hd hl hcov ih

/-! ## Key fields keep their text -/

/-- The text of a key field; empty if the element does not have it. -/
def keyText (v : Value) (k : String) : String := ((v.get k).map scalarToString).getD ""

theorem extractKeys_eq_iff {x y : Value} {keys : List String} :
    extractKeys x keys = extractKeys y keys ↔ ∀ k ∈ keys, keyText x k = keyText y k := by
  unfold extractKeys keyText
  rw [List.map_inj_left]
  simp

theorem scalarToString_composite {v w : Value} (hs : sameShape v w = true) :
    scalarToString v = YamlText.text v ∧ scalarToString w = YamlText.text w := by
  rcases sameShape_iff.mp hs with ⟨d, l, rfl, rfl⟩ | ⟨xs, ys, rfl, rfl⟩
  · exact ⟨rfl, rfl⟩
  · exact ⟨rfl, rfl⟩

/-- Of two values that are no composites of one shape, or are equal but for their end, the patch
leaves one. -/
theorem Covers.one_stays {v w : Value} (hd : Addressable gvk listMaps path v)
    (hl : Addressable gvk listMaps path w) (hcov : Covers gvk listMaps cs path v w)
    (hend : sameShape v w = true → EqualButEnd v w) :
    patchAt gvk listMaps cs w path = some v ∨ patchAt gvk listMaps cs w path = some w := by
  cases hvw : sameShape v w with
  | true => exact (hend hvw).patchAt hd hl hcov
  | false =>
      rcases hcov.other hvw with ⟨-, h⟩ | h
      · exact Or.inr h
      · exact Or.inl h

/-- A field whose text is the same on both sides keeps it. -/
theorem keyText_kept {d l : List (Value × Value)}
    (hd : Addressable gvk listMaps path (.mapping d))
    (hl : Addressable gvk listMaps path (.mapping l))
    (hcov : Covers gvk listMaps cs path (.mapping d) (.mapping l)) {k : String}
    (hsame : keyText (.mapping d) k = keyText (.mapping l) k)
    (htext : ∀ v w, (Value.mapping d).get k = some v → (Value.mapping l).get k = some w →
      sameShape v w = true → YamlText.text v = YamlText.text w → EqualButEnd v w) :
    keyText (patch gvk listMaps cs (.mapping l) path) k = keyText (.mapping l) k := by
  have hd' : (Value.mapping d).get k = entry d (.string k) := rfl
  have hl' : (Value.mapping l).get k = entry l (.string k) := rfl
  have hu' : (patch gvk listMaps cs (.mapping l) path).get k =
      entry (patchEntries gvk listMaps cs l path ++ addedFields cs path) (.string k) := by
    rw [patch]
    rfl
  have hpatched := fun z => @entry_patched _ _ _ _ _ _ _ _ hcov hd hl k z
  cases hdx : entry d (.string k) with
  | none =>
      have hnone : entry (patchEntries gvk listMaps cs l path ++ addedFields cs path)
          (.string k) = none := by
        cases he : entry (patchEntries gvk listMaps cs l path ++ addedFields cs path)
            (.string k) with
        | none => rfl
        | some z =>
            rcases (hpatched z).mp he with ⟨_, _, h, -⟩ | ⟨h, -⟩
            · exact absurd (hdx.symm.trans h) (by simp)
            · exact absurd (hdx.symm.trans h) (by simp)
      rw [← hsame, keyText, keyText, hu', hd', hnone, hdx]
  | some v =>
      cases hly : entry l (.string k) with
      | none =>
          rw [← hsame, keyText, keyText, hu', hd', (hpatched v).mpr (Or.inr ⟨hdx, hly⟩), hdx]
      | some w =>
          -- the field is on both sides: one of its two values stays
          have hmem : (.string k, v) ∈ d := by
            cases hd.strings with
            | mapping strs distinct values => exact entry_of_strings strs hdx
          have hbes : Beside gvk listMaps path (.mapping d) (.mapping l)
              ⟨.field k, some v, entry l (.string k)⟩ := .desiredKey hmem
          rw [hly] at hbes
          have htexts : scalarToString v = scalarToString w := by
            rw [keyText, keyText, hd', hl', hdx, hly] at hsame
            exact hsame
          have hstay := (hcov.child hd hl hbes).one_stays (hbes.addressable_desired hd hl)
            (hbes.addressable_live hd hl) fun hvw => by
              obtain ⟨hv, hw⟩ := scalarToString_composite hvw
              exact htext v w (hd'.trans hdx) (hl'.trans hly) hvw (hv.symm.trans (htexts.trans hw))
          rw [keyText, keyText, hu', hl', hly]
          rcases hstay with h | h
          · rw [(hpatched v).mpr (Or.inl ⟨v, w, hdx, hly, h⟩)]
            exact htexts
          · rw [(hpatched w).mpr (Or.inl ⟨v, w, hdx, hly, h⟩)]

/-- **A patched element has the keys it had.** -/
theorem keys_kept {keys : List String} {x y u : Value} (hd : Addressable gvk listMaps path x)
    (hl : Addressable gvk listMaps path y) (hcov : Covers gvk listMaps cs path x y)
    (hkeys : extractKeys x keys = extractKeys y keys)
    (htext : ∀ k ∈ keys, ∀ v w, x.get k = some v → y.get k = some w → sameShape v w = true →
      YamlText.text v = YamlText.text w → EqualButEnd v w)
    (hu : patchAt gvk listMaps cs y path = some u) : extractKeys u keys = extractKeys y keys := by
  cases hs : sameShape x y with
  | false =>
      rcases hcov.other hs with ⟨-, h⟩ | h
      · rw [Option.some.inj (hu.symm.trans h)]
      · rw [Option.some.inj (hu.symm.trans h), hkeys]
  | true =>
      obtain rfl := Option.some.inj (hu.symm.trans (hcov.inside hs))
      match x, y, hs with
      | .sequence d, .sequence l, _ => rw [patch]; rfl
      | .mapping d, .mapping l, _ =>
          rw [extractKeys_eq_iff] at hkeys ⊢
          exact fun k hk => keyText_kept hd hl hcov (hkeys k hk) (htext k hk)

/-! ## The patched body -/

/--
Key fields of elements that are matched with each other, and are mappings or lists
on both sides: written with one text, they differ at most in the string they end
with. The text is the library's, trimmed.
-/
def KeyTexts (gvk : Gvk) (listMaps : ListMapKeys) (path : ValuePath) (d l : Value) : Prop :=
  ∀ rel keys xs ys, resolve d rel = some (.sequence xs) → resolve l rel = some (.sequence ys) →
    listMaps.keysFor gvk (path ++ rel) = some keys →
    ∀ x ∈ xs, ∀ y ∈ ys, extractKeys x keys = extractKeys y keys →
    ∀ k ∈ keys, ∀ v w, x.get k = some v → y.get k = some w → sameShape v w = true →
      YamlText.text v = YamlText.text w → EqualButEnd v w

theorem KeyTexts.follow {d l x y : Value} {seg : PathSegment} (h : KeyTexts gvk listMaps path d l)
    (hx : followSegment d seg = some x) (hy : followSegment l seg = some y) :
    KeyTexts gvk listMaps (path.push seg) x y := by
  intro rel keys xs ys hxs hys hk
  rw [ValuePath.push_append] at hk
  exact h (seg :: rel) keys xs ys (by rw [resolve, hx]; exact hxs)
    (by rw [resolve, hy]; exact hys) hk

theorem Beside.keyTexts {d l x y : Value} {seg : PathSegment}
    (hd : Addressable gvk listMaps path d) (hl : Addressable gvk listMaps path l)
    (ht : KeyTexts gvk listMaps path d l)
    (h : Beside gvk listMaps path d l ⟨seg, some x, some y⟩) :
    KeyTexts gvk listMaps (path.push seg) x y := by
  obtain ⟨hx, hy⟩ := h.follow hd hl (by simp [Slot.vacant])
  exact ht.follow hx hy

/-! ### One level -/

section

variable {d l : List (Value × Value)}
  (hd : Addressable gvk listMaps path (.mapping d))
  (hl : Addressable gvk listMaps path (.mapping l))
  (hcov : Covers gvk listMaps cs path (.mapping d) (.mapping l))
  (both : ∀ {seg x y}, Beside gvk listMaps path (.mapping d) (.mapping l) ⟨seg, some x, some y⟩ →
    ∃ u, patchAt gvk listMaps cs y (path.push seg) = some u ∧
      Congruent gvk listMaps (path.push seg) x u)
include hd hl hcov both

theorem congruent_patched_mapping :
    Congruent gvk listMaps path (.mapping d) (patch gvk listMaps cs (.mapping l) path) := by
  rw [patch]
  refine .ofSlots rfl fun s hbes => ?_
  cases hbes with
  | @desiredKey _ _ p mem =>
      obtain ⟨name, hname⟩ : ∃ name, p.1 = .string name := by
        cases hd.strings with
        | mapping keys distinct values => exact keys p mem
      have hbes : Beside gvk listMaps path (.mapping d) (.mapping l)
          ⟨.field (fieldName p.1), some p.2, entry l p.1⟩ := .desiredKey mem
      have hdp := (hbes.follow hd hl (by simp [Slot.vacant])).1
      rw [hname] at hbes hdp ⊢
      cases hly : entry l (.string name) with
      | none =>
          exact Or.inr ⟨p.2, p.2, rfl, (entry_patched hcov hd hl).mpr (Or.inr ⟨hdp, hly⟩),
            .refl (hd.strings.plain.part (List.mem_map_of_mem mem))⟩
      | some y =>
          rw [hly] at hbes
          obtain ⟨u, hu, hc⟩ := both hbes
          exact Or.inr ⟨p.2, u, rfl,
            (entry_patched hcov hd hl).mpr (Or.inl ⟨p.2, y, hdp, hly, hu⟩), hc⟩
  | @liveKey _ _ p mem absent =>
      -- every field of the patched mapping is one of desired
      obtain ⟨k, v⟩ := p
      obtain ⟨name, hname⟩ := @patched_strings _ _ gvk listMaps cs path _ hl (k, v) mem
      obtain rfl : k = .string name := hname
      rcases (mem_patched hcov hd hl).mp mem with ⟨_, _, h, -⟩ | ⟨h, -⟩
      · exact absurd (absent.symm.trans h) (by simp)
      · exact absurd (absent.symm.trans h) (by simp)

end

section

variable {d l : List Value}
  (hd : Addressable gvk listMaps path (.sequence d))
  (hl : Addressable gvk listMaps path (.sequence l))
  (hcov : Covers gvk listMaps cs path (.sequence d) (.sequence l))
  (both : ∀ {seg x y}, Beside gvk listMaps path (.sequence d) (.sequence l)
    ⟨seg, some x, some y⟩ → ∃ u, patchAt gvk listMaps cs y (path.push seg) = some u ∧
      Congruent gvk listMaps (path.push seg) x u)
include hd hl hcov both

theorem congruent_patched_keyed {keys : List String} (hk : listMaps.keysFor gvk path = some keys)
    (hkeep : ∀ y ∈ l, ∀ u, patchAt gvk listMaps cs y (path.keyed (extractKeys y keys)) = some u →
      extractKeys u keys = extractKeys y keys) :
    Congruent gvk listMaps path (.sequence d) (patch gvk listMaps cs (.sequence l) path) := by
  have hdn := hd.distinct.here hk
  rw [patch, hk]
  refine .ofSlots rfl fun s hbes => ?_
  cases hbes with
  | index positional i => exact absurd (hk.symm.trans positional) (by simp)
  | keyed hk' key i =>
      obtain rfl := Option.some.inj (hk.symm.trans hk')
      rw [withKey_eq_find hdn, withKey_eq_find (patched_keys_nodup hk hcov hd hl hkeep),
        getElem?_toList, getElem?_toList]
      by_cases hi : i = 0
      · rw [if_pos hi, if_pos hi]
        have hbes := keyed_slot hk hd hl key
        have hpat := fun z => @findKeyed_patched _ _ _ _ _ _ _ _ _ hk hcov hd hl hkeep key z
        cases hx : findKeyed keys key d with
        | none =>
            refine Or.inl ⟨hx, ?_⟩
            cases hz : findKeyed keys key
                (patchKeyed gvk listMaps cs l keys path ++ addedElements cs path) with
            | none => exact hz
            | some z =>
                rcases (hpat z).mp hz with ⟨_, _, h, -⟩ | ⟨h, -⟩
                · exact absurd (hx.symm.trans h) (by simp)
                · exact absurd (hx.symm.trans h) (by simp)
        | some x =>
            have hxm := ((findKeyed_eq_some hdn).mp hx).1
            cases hy : findKeyed keys key l with
            | none =>
                exact Or.inr ⟨x, x, hx, (hpat x).mpr (Or.inr ⟨hx, hy⟩),
                  .refl (hd.strings.plain.part hxm)⟩
            | some y =>
                rw [hx, hy] at hbes
                obtain ⟨u, hu, hc⟩ := both hbes
                exact Or.inr ⟨x, u, hx, (hpat u).mpr (Or.inl ⟨x, y, hx, hy, hu⟩), hc⟩
      · rw [if_neg hi, if_neg hi]
        exact Or.inl ⟨rfl, rfl⟩

theorem congruent_patched_indexed (hk : listMaps.keysFor gvk path = none) :
    Congruent gvk listMaps path (.sequence d) (patch gvk listMaps cs (.sequence l) path) := by
  have slot : ∀ i : Nat, Beside gvk listMaps path (.sequence d) (.sequence l)
      ⟨.index i, d[i]?, l[i]?⟩ := fun i => .index hk i
  -- the elements of live that desired has as well
  have hstay : ∀ (j : Nat) y, (l.take d.length)[j]? = some y →
      ∃ u, patchAt gvk listMaps cs y (path.index (0 + j)) = some u := by
    intro j y hy
    rw [List.getElem?_take] at hy
    split at hy
    · rename_i hj
      have hbes := slot j
      rw [List.getElem?_eq_getElem hj, hy] at hbes
      obtain ⟨u, hu, -⟩ := both hbes
      rw [Nat.zero_add]
      exact ⟨u, hu⟩
    · exact absurd hy (by simp)
  -- and those behind them
  have hgone : patchIndexed gvk listMaps cs (l.drop d.length) (0 + (l.take d.length).length) path =
      [] := by
    refine patchIndexed_gone fun j y hy => ?_
    rw [List.getElem?_drop] at hy
    have hlt := (List.getElem?_eq_some_iff.mp hy).1
    have hoff : 0 + (l.take d.length).length + j = d.length + j := by
      rw [List.length_take]
      omega
    have hbes := slot (d.length + j)
    rw [List.getElem?_eq_none (Nat.le_add_right _ _), hy] at hbes
    rw [hoff]
    exact hcov.removed hd hl hbes
  have hsplit : patchIndexed gvk listMaps cs l 0 path =
      patchIndexed gvk listMaps cs (l.take d.length) 0 path := by
    rw [← List.append_nil (patchIndexed gvk listMaps cs (l.take d.length) 0 path), ← hgone,
      ← patchIndexed_append, List.take_append_drop]
  obtain ⟨hlen, hget⟩ := patchIndexed_kept hstay
  rw [List.length_take] at hlen
  rw [patch, hk]
  simp only [hsplit, addedFrom_eq hk hcov hd hl]
  refine .ofSlots rfl fun s hbes => ?_
  cases hbes with
  | keyed hk' key i => exact absurd (hk.symm.trans hk') (by simp)
  | index _ i =>
      by_cases hi : i < d.length ∧ i < l.length
      · obtain ⟨hid, hil⟩ := hi
        have hbes := slot i
        rw [List.getElem?_eq_getElem hid, List.getElem?_eq_getElem hil] at hbes
        obtain ⟨u, hu, hc⟩ := both hbes
        have hy : (l.take d.length)[i]? = some l[i] := by
          rw [List.getElem?_take, if_pos hid, List.getElem?_eq_getElem hil]
        have hpi := hget i _ hy
        rw [Nat.zero_add] at hpi
        refine Or.inr ⟨d[i], u, List.getElem?_eq_getElem hid, ?_, hc⟩
        show (patchIndexed gvk listMaps cs (l.take d.length) 0 path ++ d.drop l.length)[i]? = some u
        rw [List.getElem?_append_left (by rw [hlen]; omega), hpi]
        exact hu
      · -- beyond the end of one side it is the desired element, if there is one
        have hsame : (patchIndexed gvk listMaps cs (l.take d.length) 0 path ++
            d.drop l.length)[i]? = d[i]? := by
          rw [List.getElem?_append_right (by rw [hlen]; omega), hlen, List.getElem?_drop]
          by_cases hdl : d.length ≤ l.length
          · rw [List.getElem?_eq_none (by omega), List.getElem?_eq_none (by omega)]
          · rw [show l.length + (i - min d.length l.length) = i by omega]
        rw [hsame]
        exact slot_self _ (fun x hx => hd.strings.plain.part (List.mem_of_getElem? hx)) _

end

/-- **The patched value is congruent to the desired one.** -/
theorem patch_congruent (d : Value) : ∀ {path : ValuePath} {l : Value},
    Addressable gvk listMaps path d → Addressable gvk listMaps path l →
    KeyTexts gvk listMaps path d l → Covers gvk listMaps cs path d l →
    ∃ u, patchAt gvk listMaps cs l path = some u ∧ Congruent gvk listMaps path d u := by
  induction d using Value.inductOnParts with
  | h d ih =>
      intro path l hd hl ht hcov
      -- what stands on both sides is patched, by induction
      have both : ∀ {seg x y}, Beside gvk listMaps path d l ⟨seg, some x, some y⟩ →
          ∃ u, patchAt gvk listMaps cs y (path.push seg) = some u ∧
            Congruent gvk listMaps (path.push seg) x u := by
        intro seg x y hbes
        exact ih x (hbes.desired_mem rfl) (hbes.addressable_desired hd hl)
          (hbes.addressable_live hd hl) (hbes.keyTexts hd hl ht) (hcov.child hd hl hbes)
      cases hs : sameShape d l with
      | false =>
          rcases hcov.other hs with ⟨hb, h⟩ | h
          · exact ⟨l, h, .other hs fun hne => absurd (hb.symm.trans hne) (by simp)⟩
          · exact ⟨d, h, .refl hd.strings.plain⟩
      | true =>
          refine ⟨_, hcov.inside hs, ?_⟩
          match d, l, hs with
          | .mapping d, .mapping l, _ => exact congruent_patched_mapping hd hl hcov both
          | .sequence d, .sequence l, _ =>
              cases hk : listMaps.keysFor gvk path with
              | none => exact congruent_patched_indexed hd hl hcov both hk
              | some keys =>
                  have hdn := hd.distinct.here hk
                  have hln := hl.distinct.here hk
                  refine congruent_patched_keyed hd hl hcov both hk fun y hy u hu => ?_
                  have hbes := keyed_slot hk hd hl (extractKeys y keys)
                  rw [(findKeyed_eq_some hln).mpr ⟨hy, rfl⟩] at hbes
                  cases hx : findKeyed keys (extractKeys y keys) d with
                  | none =>
                      rw [hx] at hbes
                      exact absurd (hu.symm.trans (hcov.removed hd hl hbes)) (by simp)
                  | some x =>
                      rw [hx] at hbes
                      obtain ⟨hxm, hxk⟩ := (findKeyed_eq_some hdn).mp hx
                      exact keys_kept (hbes.addressable_desired hd hl)
                        (hbes.addressable_live hd hl) (hcov.child hd hl hbes) hxk
                        (ht [] keys d l rfl rfl (by rw [List.append_nil]; exact hk)
                          x hxm y hy hxk) hu

/-! ## The diff of two manifests -/

theorem covers_diff {d l : Value} (hd : Addressable gvk listMaps .root d)
    (hl : Addressable gvk listMaps .root l) (hcs : cs.Perm (diffValue gvk listMaps d l .root)) :
    Covers gvk listMaps cs .root d l :=
  ⟨((hcs.map Change.path).nodup_iff).mpr (paths_nodup d hd hl), fun _ _ => hcs.mem_iff⟩

/--
**A diff is a faithful and complete patch.** On stripped bodies with string keys,
whose registered list-maps have elements with distinct extracted keys: the changes
are at distinct paths, each path leads to the values the change reports, the
changes made in live, in whatever order they are listed, give a body with no
difference to desired, and the diff the other way round has the same changes with
their sides exchanged.
-/
theorem diff_is_patch (listMaps : ListMapKeys) (desired live : Manifest)
    (hgvk : live.gvk = desired.gvk)
    (hd : Addressable desired.gvk listMaps .root (stripExcluded desired.body.value))
    (hl : Addressable desired.gvk listMaps .root (stripExcluded live.body.value))
    (ht : KeyTexts desired.gvk listMaps .root (stripExcluded desired.body.value)
      (stripExcluded live.body.value)) :
    ((diff desired live listMaps).changes.map Change.path).Nodup ∧
    (∀ c ∈ (diff desired live listMaps).changes,
      resolve (stripExcluded desired.body.value) c.path = c.desired ∧
      resolve (stripExcluded live.body.value) c.path = c.live) ∧
    (∀ cs : List Change, cs.Perm (diff desired live listMaps).changes →
      ∃ patched, patchAt desired.gvk listMaps cs (stripExcluded live.body.value) .root =
          some patched ∧
        diffValue desired.gvk listMaps (stripExcluded desired.body.value) patched .root = []) ∧
    (diff live desired listMaps).changes.Perm
      ((diff desired live listMaps).changes.map Change.swap) := by
  have hnd := paths_nodup _ hd hl
  refine ⟨hnd, ?_, ?_, ?_⟩
  · intro c hc
    obtain ⟨rel, hp, h1, h2⟩ := resolves _ hd hl hc
    have hrel : c.path = rel := hp
    rw [hrel]
    exact ⟨h1, h2⟩
  · intro cs hcs
    obtain ⟨u, hu, hc⟩ := patch_congruent _ hd hl ht (covers_diff hd hl hcs)
    exact ⟨u, hu, congruent_iff.mp hc⟩
  · have hswap : ∀ c, c ∈ (diff live desired listMaps).changes ↔
        c ∈ (diff desired live listMaps).changes.map Change.swap := by
      intro c
      unfold diff
      rw [hgvk]
      exact mem_swap hd.strings.plain hl.strings.plain
    have hnd' : ((diff live desired listMaps).changes.map Change.path).Nodup := by
      unfold diff
      rw [hgvk]
      exact paths_nodup _ hl hd
    refine (List.perm_ext_iff_of_nodup (List.Nodup.of_map _ hnd') ?_).mpr hswap
    refine List.Nodup.of_map Change.path ?_
    rw [List.map_map, show Change.path ∘ Change.swap = Change.path from
      funext fun c => c.path_swap]
    exact hnd

/-- What a path leads to in a body that holds one list, of flat elements: the list, if it is
one. -/
theorem resolve_flat {name : String} {items xs : List Value} {rel : ValuePath}
    (hflat : ∀ x ∈ items, (∀ ys, x ≠ .sequence ys) ∧
      ∀ y ∈ x.parts, y.parts = [] ∧ ∀ ys, y ≠ .sequence ys)
    (h : resolve (.mapping [(.string name, .sequence items)]) rel = some (.sequence xs)) :
    xs = items := by
  have part : ∀ {v x : Value} {seg : PathSegment}, followSegment v seg = some x → x ∈ v.parts := by
    intro v x seg hx
    unfold followSegment at hx
    split at hx
    · obtain ⟨k, hm, -⟩ := entry_mem hx
      exact List.mem_map_of_mem hm
    · exact List.mem_of_getElem? hx
    · exact List.mem_of_find?_eq_some hx
    · exact absurd hx (by simp)
  cases rel with
  | nil => exact absurd (Option.some.inj h) (by simp)
  | cons seg rest =>
      obtain ⟨u, hu, hin⟩ := Option.bind_eq_some_iff.mp h
      obtain rfl : u = .sequence items := by simpa [Value.parts] using part hu
      cases rest with
      | nil => exact (Value.sequence.inj (Option.some.inj hin)).symm
      | cons seg' rest =>
          obtain ⟨x, hx, hin⟩ := Option.bind_eq_some_iff.mp hin
          obtain ⟨hns, hparts⟩ := hflat x (part hx)
          cases rest with
          | nil => exact absurd (Option.some.inj hin) (hns xs)
          | cons seg'' rest =>
              obtain ⟨y, hy, hin⟩ := Option.bind_eq_some_iff.mp hin
              obtain ⟨hleaf, hys⟩ := hparts y (part hy)
              cases rest with
              | nil => exact absurd (Option.some.inj hin) (hys xs)
              | cons seg''' rest =>
                  obtain ⟨z, hz, -⟩ := Option.bind_eq_some_iff.mp hin
                  exact absurd (part hz) (by rw [hleaf]; exact List.not_mem_nil)

end

/-! ## Runs -/

/-- `{port: p, name: n}` -/
def portItem (p : Value) (n : String) : Value :=
  .mapping [(.string "port", p), (.string "name", .string n)]

def portsBody (items : List Value) : Value := .mapping [(.string "ports", .sequence items)]

def portNumber (n : UInt64) : Value := .number (.posInt n)

/-- Ports are told apart by their number. -/
def portListMaps : ListMapKeys := ⟨∅, [⟨"ports", ["port"]⟩]⟩

/-- Two ports of distinct numbers, one written as a number and one as a string: their keys
read the same, and two changes have one path. -/
theorem same_text_same_path :
    Value.beq (portNumber 80) (.string "80") = false ∧
      ¬ ((@diff .ofBits .sample
        (sampleManifest (portsBody [portItem (portNumber 80) "a", portItem (.string "80") "b"]) rfl)
        (sampleManifest (portsBody []) rfl) portListMaps).changes.map Change.path).Nodup := by
  refine ⟨rfl, ?_⟩
  decide

/-- Ports with numbers. -/
def numbered (ps : List (UInt64 × String)) : List Value :=
  ps.map fun p => portItem (portNumber p.1) p.2

theorem numbered_flat {ps : List (UInt64 × String)} : ∀ x ∈ numbered ps,
    (∀ ys, x ≠ .sequence ys) ∧ ∀ y ∈ x.parts, y.parts = [] ∧ ∀ ys, y ≠ .sequence ys := by
  intro x hx
  obtain ⟨p, -, rfl⟩ := List.mem_map.mp hx
  refine ⟨by simp [portItem], ?_⟩
  intro y hy
  have hy : y = portNumber p.1 ∨ y = .string p.2 := by simpa [portItem, Value.parts] using hy
  rcases hy with rfl | rfl <;> exact ⟨rfl, by simp [portNumber]⟩

theorem portListMaps_keys {gvk : Gvk} {path : ValuePath} {keys : List String}
    (h : portListMaps.keysFor gvk path = some keys) : keys = ["port"] := by
  unfold ListMapKeys.keysFor at h
  simp only [ListMapKeys.firstMatch, portListMaps, List.find?_cons] at h
  split at h <;> simp_all

theorem numbered_addressable {gvk : Gvk} (ps : List (UInt64 × String))
    (hnd : ((numbered ps).map fun x => @extractKeys .ofBits .sample x ["port"]).Nodup) :
    @Addressable .ofBits .sample gvk portListMaps .root (portsBody (numbered ps)) := by
  refine @Addressable.mk .ofBits .sample _ _ _ _ ?_ ?_
  · refine .mapping (by simp) (by simp) fun p hp => ?_
    obtain rfl := List.mem_singleton.mp hp
    refine .sequence fun x hx => ?_
    obtain ⟨q, -, rfl⟩ := List.mem_map.mp hx
    refine .mapping (by simp) (by simp) fun r hr => ?_
    rcases List.mem_pair.mp hr with rfl | rfl
    · exact .number _
    · exact .string _
  · intro rel keys xs hr hk
    obtain rfl := @resolve_flat .ofBits .sample _ _ _ _ numbered_flat hr
    obtain rfl := portListMaps_keys hk
    exact hnd

/-- Numbers are scalars, so that no key field is a mapping or a list. -/
theorem numbered_keyTexts {gvk : Gvk} (ps qs : List (UInt64 × String)) :
    @KeyTexts .ofBits .sample gvk portListMaps .root (portsBody (numbered ps))
      (portsBody (numbered qs)) := by
  intro rel keys xs ys hxs hys hk x hx y hy _ k hkm v w hv _ hs
  obtain rfl := @resolve_flat .ofBits .sample _ _ _ _ numbered_flat hxs
  obtain rfl := portListMaps_keys hk
  obtain rfl := List.mem_singleton.mp hkm
  obtain ⟨p, -, rfl⟩ := List.mem_map.mp hx
  obtain rfl : portNumber p.1 = v := Option.some.inj hv
  exact absurd hs (by simp [portNumber, sameShape])

/-- Two ports in the one order and in the other, one of them renamed. -/
theorem diff_is_patch_ports :
    let desired := sampleManifest (portsBody (numbered [(80, "a"), (81, "b")])) rfl
    let live := sampleManifest (portsBody (numbered [(81, "c"), (80, "a")])) rfl
    let changes := (@diff .ofBits .sample desired live portListMaps).changes
    (changes.map Change.path).Nodup ∧
    (∀ c ∈ changes,
      @resolve .ofBits .sample (stripExcluded desired.body.value) c.path = c.desired ∧
      @resolve .ofBits .sample (stripExcluded live.body.value) c.path = c.live) ∧
    (∀ cs : List Change, cs.Perm changes → ∃ patched,
      @patchAt .ofBits .sample desired.gvk portListMaps cs (stripExcluded live.body.value) .root =
          some patched ∧
        @diffValue .ofBits .sample desired.gvk portListMaps (stripExcluded desired.body.value)
          patched .root = []) ∧
    (@diff .ofBits .sample live desired portListMaps).changes.Perm (changes.map Change.swap) :=
  @diff_is_patch .ofBits .sample portListMaps _ _ rfl (numbered_addressable _ (by decide))
    (numbered_addressable _ (by decide)) (numbered_keyTexts _ _)

end SynchrotronCD
