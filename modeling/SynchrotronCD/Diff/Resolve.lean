import SynchrotronCD.Diff.Congruence

/-!
# Where a change is

The path of a change, followed into the two bodies it was computed from. On
bodies with string keys, and list-maps whose elements are told apart by their
extracted keys, a segment picks one part on each side: no two changes have one
path (`paths_nodup`), each path leads to the values the change reports
(`resolves`), and the compare the other way round reports the same changes with
their sides exchanged (`mem_swap`).
-/

namespace SynchrotronCD

namespace Change

/-- The value on the desired side, if there is one. -/
def desired : Change → Option Value
  | .added _ v | .modified _ v _ => some v
  | .removed _ _ => none

/-- The value on the live side, if there is one. -/
def live : Change → Option Value
  | .removed _ v | .modified _ _ v => some v
  | .added _ _ => none

/-- The change with its sides exchanged. -/
def swap : Change → Change
  | .added p v => .removed p v
  | .removed p v => .added p v
  | .modified p d l => .modified p l d

@[simp] theorem swap_swap (c : Change) : c.swap.swap = c := by cases c <;> rfl

@[simp] theorem path_swap (c : Change) : c.swap.path = c.path := by cases c <;> rfl

end Change

theorem ValuePath.push_append (p : ValuePath) (seg : PathSegment) (q : ValuePath) :
    p.push seg ++ q = p ++ seg :: q := by
  simp [ValuePath.push]

/-- A path goes on from another one by one segment at most. -/
theorem ValuePath.push_prefix_inj {p q : ValuePath} {a b : PathSegment} (ha : p.push a <+: q)
    (hb : p.push b <+: q) : a = b := by
  obtain ⟨r, rfl⟩ := ha
  obtain ⟨r', h⟩ := hb
  rw [push_append, push_append] at h
  exact ((List.cons.inj (List.append_cancel_left h)).1).symm

theorem ValuePath.not_push_prefix (p : ValuePath) (seg : PathSegment) : ¬ p.push seg <+: p := by
  intro h
  have hle := h.length_le
  rw [push, List.length_append, List.length_singleton] at hle
  omega

theorem ValuePath.push_ne (p : ValuePath) (seg : PathSegment) : p.push seg ≠ p :=
  fun h => p.not_push_prefix seg (h.symm ▸ List.prefix_rfl)

variable [FloatText] [YamlText] {gvk : Gvk} {listMaps : ListMapKeys} {path : ValuePath}

/-- The part of a value at a segment. An element of a list-map is the first one with the keys. -/
def followSegment : Value → PathSegment → Option Value
  | .mapping kvs, .field name => entry kvs (.string name)
  | .sequence xs, .index i => xs[i]?
  | .sequence xs, .keyed keys => xs.find? fun x => extractKeys x (keys.map Prod.fst) = keys
  | _, _ => none

/-- The part of a value that a path leads to. -/
def resolve : Value → ValuePath → Option Value
  | v, [] => some v
  | v, seg :: path => (followSegment v seg).bind (resolve · path)

/-- The elements of every registered list-map in the value, which stands at `path`, have
distinct extracted keys. -/
def DistinctKeys (gvk : Gvk) (listMaps : ListMapKeys) (path : ValuePath) (v : Value) : Prop :=
  ∀ rel keys xs, resolve v rel = some (.sequence xs) →
    listMaps.keysFor gvk (path ++ rel) = some keys →
    (xs.map fun x => extractKeys x keys).Nodup

/-- Every segment leads to one part. -/
structure Addressable (gvk : Gvk) (listMaps : ListMapKeys) (path : ValuePath) (v : Value) :
    Prop where
  strings : v.StringKeyed
  distinct : DistinctKeys gvk listMaps path v

theorem DistinctKeys.follow {v x : Value} {seg : PathSegment}
    (h : DistinctKeys gvk listMaps path v) (hx : followSegment v seg = some x) :
    DistinctKeys gvk listMaps (path.push seg) x := by
  intro rel keys xs hr hk
  rw [ValuePath.push_append] at hk
  exact h (seg :: rel) keys xs (by rw [resolve, hx]; exact hr) hk

theorem DistinctKeys.here {xs : List Value} {keys : List String}
    (h : DistinctKeys gvk listMaps path (.sequence xs))
    (hk : listMaps.keysFor gvk path = some keys) : (xs.map fun x => extractKeys x keys).Nodup :=
  h [] keys xs rfl (by rw [List.append_nil]; exact hk)

/-! ## Slots of addressable values -/

omit [FloatText] in
theorem fieldName_string (s : String) : fieldName (.string s) = s := rfl

theorem extractKeys_names {x : Value} {keys : List String} :
    (extractKeys x keys).map Prod.fst = keys := by
  simp [extractKeys, Function.comp_def]

/-- With distinct keys, the elements of a key are the one found by it. -/
theorem withKey_eq_find {keys : List String} {xs : List Value}
    (hd : (xs.map fun x => extractKeys x keys).Nodup) (key : List (String × String)) :
    withKey keys key xs = (xs.find? fun x => extractKeys x keys = key).toList := by
  induction xs with
  | nil => rfl
  | cons x xs ih =>
      rw [List.map_cons, List.nodup_cons] at hd
      by_cases hx : extractKeys x keys = key
      · subst hx
        have hnone : withKey keys (extractKeys x keys) xs = [] := by
          rw [List.eq_nil_iff_forall_not_mem]
          intro y hy
          obtain ⟨hy, he⟩ := mem_withKey.mp hy
          exact hd.1 (List.mem_map.mpr ⟨y, hy, he⟩)
        rw [withKey_cons_self, hnone, List.find?_cons_of_pos (by simp)]
        rfl
      · rw [withKey_cons_ne hx, List.find?_cons_of_neg (by simpa using hx), ih hd.2]

omit [FloatText] [YamlText] in
theorem getElem?_toList (o : Option Value) (i : Nat) :
    o.toList[i]? = if i = 0 then o else none := by
  cases o with
  | none => simp
  | some v => cases i <;> simp

/-- **What stands side by side is what the segment leads to.** -/
theorem Beside.follow {d l : Value} (hd : Addressable gvk listMaps path d)
    (hl : Addressable gvk listMaps path l) {s : Slot} (h : Beside gvk listMaps path d l s)
    (hv : ¬ s.vacant) :
    followSegment d s.segment = s.desired ∧ followSegment l s.segment = s.live := by
  obtain ⟨hds, hdd⟩ := hd
  obtain ⟨hls, hld⟩ := hl
  cases h with
  | @desiredKey d l p mem =>
      cases hds with
      | mapping keys distinct values =>
          obtain ⟨name, hname⟩ := keys p mem
          have hp : entry d p.1 = some p.2 :=
            (entry_string_iff keys distinct (keys p mem)).mpr mem
          rw [hname] at hp
          simp only [hname, fieldName_string]
          exact ⟨hp, rfl⟩
  | @liveKey d l p mem absent =>
      cases hls with
      | mapping keys distinct values =>
          obtain ⟨name, hname⟩ := keys p mem
          have hp : entry l p.1 = some p.2 :=
            (entry_string_iff keys distinct (keys p mem)).mpr mem
          rw [hname] at hp absent
          simp only [hname, fieldName_string]
          exact ⟨absent, hp⟩
  | index positional i => exact ⟨rfl, rfl⟩
  | @keyed d l keys registered key i =>
      have hdk := withKey_eq_find (hdd.here registered) key
      have hlk := withKey_eq_find (hld.here registered) key
      -- one element at most has the key on each side, so that the slot is the first
      have hi : i = 0 := by
        by_contra hi
        apply hv
        rw [Slot.vacant, hdk, hlk, getElem?_toList, getElem?_toList, if_neg hi, if_neg hi]
        exact ⟨rfl, rfl⟩
      subst hi
      have hnames : key.map Prod.fst = keys := by
        cases hx : (withKey keys key d)[0]? with
        | some x =>
            obtain ⟨-, rfl⟩ := mem_withKey.mp (List.mem_of_getElem? hx)
            exact extractKeys_names
        | none =>
            cases hy : (withKey keys key l)[0]? with
            | none => exact absurd ⟨hx, hy⟩ hv
            | some y =>
                obtain ⟨-, rfl⟩ := mem_withKey.mp (List.mem_of_getElem? hy)
                exact extractKeys_names
      rw [hdk, hlk, getElem?_toList, getElem?_toList, if_pos rfl, if_pos rfl]
      constructor <;> simp [followSegment, hnames]

theorem Addressable.part {v x : Value} {seg : PathSegment} (h : Addressable gvk listMaps path v)
    (hm : x ∈ v.parts) (hx : followSegment v seg = some x) :
    Addressable gvk listMaps (path.push seg) x :=
  ⟨h.strings.part hm, h.distinct.follow hx⟩

theorem Beside.addressable_desired {d l : Value} (hd : Addressable gvk listMaps path d)
    (hl : Addressable gvk listMaps path l) {seg : PathSegment} {x : Value} {o : Option Value}
    (h : Beside gvk listMaps path d l ⟨seg, some x, o⟩) :
    Addressable gvk listMaps (path.push seg) x :=
  hd.part (h.desired_mem rfl) (h.follow hd hl (by simp [Slot.vacant])).1

theorem Beside.addressable_live {d l : Value} (hd : Addressable gvk listMaps path d)
    (hl : Addressable gvk listMaps path l) {seg : PathSegment} {y : Value} {o : Option Value}
    (h : Beside gvk listMaps path d l ⟨seg, o, some y⟩) :
    Addressable gvk listMaps (path.push seg) y :=
  hl.part (h.live_mem rfl) (h.follow hd hl (by simp [Slot.vacant])).2

/-- A segment has one slot. -/
theorem Beside.unique {d l : Value} (hd : Addressable gvk listMaps path d)
    (hl : Addressable gvk listMaps path l) {s t : Slot} (hs : Beside gvk listMaps path d l s)
    (ht : Beside gvk listMaps path d l t) (hsv : ¬ s.vacant) (htv : ¬ t.vacant)
    (hseg : s.segment = t.segment) : s = t := by
  obtain ⟨h1, h2⟩ := hs.follow hd hl hsv
  obtain ⟨h3, h4⟩ := ht.follow hd hl htv
  rw [hseg] at h1 h2
  cases s
  cases t
  dsimp only at *
  rw [hseg, ← h1, ← h2, h3, h4]

/-! ## Distinct paths -/

/-- A change below a path goes on from it. -/
theorem prefix_of_mem (d : Value) : ∀ {path : ValuePath} {l : Value} {c : Change},
    c ∈ diffValue gvk listMaps d l path → path <+: c.path := by
  induction d using Value.inductOnParts with
  | h d ih =>
      intro path l c hc
      cases mem_diffValue_iff.mp hc with
      | whole => exact List.prefix_rfl
      | inside beside below =>
          exact (List.prefix_append _ _).trans (ih _ (beside.desired_mem rfl) below)
      | added | removed => exact List.prefix_append _ _

theorem prefix_of_mem_slot {s : Slot} {c : Change}
    (hc : c ∈ slotChanges gvk listMaps path s) : path.push s.segment <+: c.path := by
  obtain ⟨seg, o, o'⟩ := s
  match o, o' with
  | some x, some y => exact prefix_of_mem x hc
  | some x, none =>
      obtain rfl := List.mem_singleton.mp hc
      exact List.prefix_rfl
  | none, some y =>
      obtain rfl := List.mem_singleton.mp hc
      exact List.prefix_rfl
  | none, none => exact absurd hc (by simp [slotChanges])

/-- At its own path, the compare of two values reports that they differ as wholes. -/
theorem own_change {d l : Value} {c : Change} (hc : c ∈ diffValue gvk listMaps d l path)
    (hp : c.path = path) : sameShape d l = false ∧ c = .modified path d l := by
  cases mem_diffValue_iff.mp hc with
  | whole differ => exact ⟨differ, rfl⟩
  | inside _ below =>
      have hpre := prefix_of_mem _ below
      rw [hp] at hpre
      exact absurd hpre (ValuePath.not_push_prefix _ _)
  | added | removed => exact absurd hp (ValuePath.push_ne _ _)

/-- `x` and `y` stand side by side at the path `q`, inside two values that do so at `path`. -/
inductive SideBySide (gvk : Gvk) (listMaps : ListMapKeys) :
    ValuePath → Value → Value → ValuePath → Value → Value → Prop
  | here {path : ValuePath} {d l : Value} : SideBySide gvk listMaps path d l path d l
  | part {path q : ValuePath} {d l v w x y : Value} {seg : PathSegment}
      (beside : Beside gvk listMaps path d l ⟨seg, some v, some w⟩)
      (rest : SideBySide gvk listMaps (path.push seg) v w q x y) :
      SideBySide gvk listMaps path d l q x y

/-- The compare of what stands side by side is part of the compare of the wholes. -/
theorem SideBySide.mem {d l x y : Value} {q : ValuePath} {c : Change}
    (h : SideBySide gvk listMaps path d l q x y) (hc : c ∈ diffValue gvk listMaps x y q) :
    c ∈ diffValue gvk listMaps d l path := by
  induction h with
  | here => exact hc
  | part beside rest ih => exact mem_diffValue_iff.mpr (.inside beside (ih hc))

/-- **A change below a path comes from two values of one shape that stand there.** -/
theorem SideBySide.of_mem (d : Value) : ∀ {path : ValuePath} {l : Value} {q : ValuePath}
    {c : Change}, c ∈ diffValue gvk listMaps d l path → path <+: q → q <+: c.path → q ≠ c.path →
    ∃ x y, SideBySide gvk listMaps path d l q x y ∧ sameShape x y = true ∧
      c ∈ diffValue gvk listMaps x y q := by
  induction d using Value.inductOnParts with
  | h d ih =>
      intro path l q c hc hpath hq hne
      by_cases heq : path = q
      · subst heq
        cases mem_diffValue_iff.mp hc with
        | whole => exact absurd rfl hne
        | inside beside | added beside | removed beside =>
            exact ⟨d, l, .here, beside.same_shape, hc⟩
      · -- the slot that the change comes from is on the way to `q`
        have onWay : ∀ seg, path.push seg <+: c.path → path.push seg <+: q := by
          intro seg hseg
          refine List.prefix_of_prefix_length_le hseg hq ?_
          have hle := hpath.length_le
          have hlen : path.length ≠ q.length := fun h => heq (hpath.eq_of_length h)
          rw [ValuePath.push, List.length_append, List.length_singleton]
          omega
        have below : ∀ seg, path.push seg ≠ c.path := fun seg h =>
          hne (hq.eq_of_length_le (h ▸ (onWay seg (h ▸ List.prefix_rfl)).length_le))
        cases mem_diffValue_iff.mp hc with
        | whole => exact absurd (hpath.eq_of_length_le hq.length_le) heq
        | inside beside hmem =>
            obtain ⟨x, y, hside, hxy, hc⟩ :=
              ih _ (beside.desired_mem rfl) hmem (onWay _ (prefix_of_mem _ hmem)) hq hne
            exact ⟨x, y, .part beside hside, hxy, hc⟩
        | added | removed => exact absurd rfl (below _)

theorem takeMatch_sublist {keys : List String} {key : List (String × String)} {y : Value}
    {rest : List Value} : ∀ {l : List Value}, takeMatch keys key l = some (y, rest) → rest.Sublist l
  | [], h => by simp [takeMatch] at h
  | z :: l, h => by
      rw [takeMatch] at h
      by_cases hz : extractKeys z keys = key
      · rw [if_pos hz, Option.some.injEq, Prod.mk.injEq] at h
        obtain ⟨-, rfl⟩ := h
        exact List.sublist_cons_self _ _
      · rw [if_neg hz, Option.map_eq_some_iff] at h
        obtain ⟨⟨w, rest'⟩, htail, heq⟩ := h
        obtain ⟨-, rfl⟩ := Prod.mk.inj heq
        exact (takeMatch_sublist htail).cons_cons z

omit [FloatText] [YamlText] in
theorem alignIndexed_nodup : ∀ (d l : List Value) (i : Nat),
    ((alignIndexed i d l).map Slot.segment).Nodup := by
  have later : ∀ (d l : List Value) (i : Nat),
      PathSegment.index i ∉ (alignIndexed (i + 1) d l).map Slot.segment := by
    intro d l i hm
    obtain ⟨s, hs, hseg⟩ := List.mem_map.mp hm
    obtain ⟨j, rfl, -⟩ := mem_alignIndexed.mp hs
    have := PathSegment.index.inj hseg
    omega
  intro d l i
  fun_induction alignIndexed i d l with
  | case1 => exact List.nodup_nil
  | case2 i y l ih => exact List.nodup_cons.mpr ⟨later _ _ i, ih⟩
  | case3 i x d ih => exact List.nodup_cons.mpr ⟨later _ _ i, ih⟩
  | case4 i x d y l ih => exact List.nodup_cons.mpr ⟨later _ _ i, ih⟩

theorem withKey_eq_nil {keys : List String} {key : List (String × String)} {xs : List Value}
    (h : key ∉ xs.map fun x => extractKeys x keys) : withKey keys key xs = [] := by
  rw [List.eq_nil_iff_forall_not_mem]
  intro x hx
  obtain ⟨hx, he⟩ := mem_withKey.mp hx
  exact h (List.mem_map.mpr ⟨x, hx, he⟩)

theorem keyed_mem_align {keys : List String} {key : List (String × String)} {d l : List Value}
    (hd : withKey keys key d = []) (hl : withKey keys key l = []) :
    PathSegment.keyed key ∉ (alignKeyed keys d l).map Slot.segment := by
  intro hm
  obtain ⟨s, hs, hseg⟩ := List.mem_map.mp hm
  obtain ⟨key', i, rfl, hv⟩ := mem_alignKeyed.mp hs
  obtain rfl := PathSegment.keyed.inj hseg
  rw [hd, hl] at hv
  exact hv ⟨rfl, rfl⟩

theorem alignKeyed_nodup {keys : List String} : ∀ (d l : List Value),
    (d.map fun x => extractKeys x keys).Nodup → (l.map fun x => extractKeys x keys).Nodup →
    ((alignKeyed keys d l).map Slot.segment).Nodup
  | [], l, _, hl => by
      rw [alignKeyed, List.map_map]
      have : (Slot.segment ∘ fun y => (⟨.keyed (extractKeys y keys), none, some y⟩ : Slot)) =
          PathSegment.keyed ∘ fun y => extractKeys y keys := rfl
      rw [this, ← List.map_map]
      exact hl.map fun a b h => PathSegment.keyed.inj h
  | x :: d, l, hd, hl => by
      rw [List.map_cons, List.nodup_cons] at hd
      rw [alignKeyed]
      have hdx := withKey_eq_nil hd.1
      cases hm : takeMatch keys (extractKeys x keys) l with
      | none =>
          exact List.nodup_cons.mpr ⟨keyed_mem_align hdx (takeMatch_none hm),
            alignKeyed_nodup d l hd.2 hl⟩
      | some m =>
          obtain ⟨y, rest⟩ := m
          have hrest : withKey keys (extractKeys x keys) rest = [] := by
            have hb := withKey_eq_find hl (extractKeys x keys)
            rw [(takeMatch_some hm).1] at hb
            cases hf : l.find? fun z => extractKeys z keys = extractKeys x keys with
            | none => rw [hf] at hb; exact absurd hb (by simp)
            | some z => rw [hf] at hb; exact (List.cons.inj hb).2
          have hsub := (takeMatch_sublist hm).map fun x => extractKeys x keys
          exact List.nodup_cons.mpr ⟨keyed_mem_align hdx hrest,
            alignKeyed_nodup d rest hd.2 (hsub.nodup hl)⟩

/-- The slots of addressable values have distinct segments. -/
theorem segments_nodup {d l : Value} (hd : Addressable gvk listMaps path d)
    (hl : Addressable gvk listMaps path l) (hs : sameShape d l = true) :
    ((slots gvk listMaps path d l).map Slot.segment).Nodup := by
  obtain ⟨hds, hdd⟩ := hd
  obtain ⟨hls, hld⟩ := hl
  match d, l, hs with
  | .sequence d, .sequence l, _ =>
      rw [slots]
      cases hk : listMaps.keysFor gvk path with
      | some keys => exact alignKeyed_nodup d l (hdd.here hk) (hld.here hk)
      | none => exact alignIndexed_nodup d l 0
  | .mapping d, .mapping l, _ =>
      cases hds with
      | mapping keys distinct values =>
          cases hls with
          | mapping keys' distinct' values' =>
              have field_inj : ∀ {k k' : Value}, (∃ s, k = .string s) → (∃ s, k' = .string s) →
                  PathSegment.field (fieldName k) = .field (fieldName k') → k = k' := by
                rintro _ _ ⟨s, rfl⟩ ⟨s', rfl⟩ h
                exact congrArg Value.string (PathSegment.field.inj h)
              have nodup_fields : ∀ {kvs : List (Value × Value)}, (∀ p ∈ kvs, ∃ s, p.1 = .string s) →
                  (kvs.map Prod.fst).Nodup →
                  (kvs.map fun p => PathSegment.field (fieldName p.1)).Nodup := by
                intro kvs hk hnd
                refine List.Nodup.map_on ?_ (List.Nodup.of_map _ hnd)
                intro p hp q hq heq
                exact List.inj_on_of_nodup_map hnd hp hq (field_inj (hk p hp) (hk q hq) heq)
              rw [slots, List.map_append, List.map_map, List.map_map, List.nodup_append']
              refine ⟨nodup_fields keys distinct, ?_, ?_⟩
              · exact nodup_fields (fun p hp => keys' p (List.mem_filter.mp hp).1)
                  ((List.Sublist.map _ List.filter_sublist).nodup distinct')
              · -- a live key of its own is no desired key
                intro seg hseg hseg'
                obtain ⟨p, hp, rfl⟩ := List.mem_map.mp hseg
                obtain ⟨q, hq, heq⟩ := List.mem_map.mp hseg'
                obtain ⟨hq, hnone⟩ := List.mem_filter.mp hq
                have hqp : q.1 = p.1 := field_inj (keys' q hq) (keys p hp) heq
                have : entry d q.1 = some p.2 :=
                  (entry_string_iff keys distinct (keys' q hq)).mpr (hqp ▸ hp)
                rw [this] at hnone
                exact absurd hnone (by simp)

/-- **No two changes have one path.** -/
theorem paths_nodup (d : Value) : ∀ {path : ValuePath} {l : Value},
    Addressable gvk listMaps path d → Addressable gvk listMaps path l →
    ((diffValue gvk listMaps d l path).map Change.path).Nodup := by
  induction d using Value.inductOnParts with
  | h d ih =>
      intro path l hd hl
      cases hs : sameShape d l with
      | false =>
          rw [diffValue_other hs]
          split <;> simp
      | true =>
          rw [diffValue_parts hs, List.map_flatMap, List.nodup_flatMap]
          refine ⟨?_, ?_⟩
          · intro s hm
            obtain ⟨hbes, -⟩ := mem_slots.mp hm
            obtain ⟨seg, o, o'⟩ := s
            match o, o' with
            | some x, some y =>
                exact ih x (hbes.desired_mem rfl) (hbes.addressable_desired hd hl)
                  (hbes.addressable_live hd hl)
            | some x, none | none, some y | none, none => simp [slotChanges]
          · have hseg := segments_nodup hd hl hs
            rw [List.Nodup, List.pairwise_map] at hseg
            refine hseg.imp fun {s t} hne => ?_
            intro q hq hq'
            obtain ⟨c, hc, rfl⟩ := List.mem_map.mp hq
            obtain ⟨c', hc', heq⟩ := List.mem_map.mp hq'
            exact hne (ValuePath.push_prefix_inj (prefix_of_mem_slot hc)
              (heq ▸ prefix_of_mem_slot hc'))

/-! ## What the paths lead to -/

theorem resolve_push {v x : Value} {seg : PathSegment} {rel : ValuePath}
    (h : followSegment v seg = some x) : resolve v (seg :: rel) = resolve x rel := by
  rw [resolve, h]
  rfl

/-- **Each path leads to the two values that the change reports.** -/
theorem resolves (d : Value) : ∀ {path : ValuePath} {l : Value} {c : Change},
    Addressable gvk listMaps path d → Addressable gvk listMaps path l →
    c ∈ diffValue gvk listMaps d l path →
    ∃ rel, c.path = path ++ rel ∧ resolve d rel = c.desired ∧ resolve l rel = c.live := by
  induction d using Value.inductOnParts with
  | h d ih =>
      intro path l c hd hl hc
      cases mem_diffValue_iff.mp hc with
      | whole => exact ⟨[], (List.append_nil path).symm, rfl, rfl⟩
      | inside beside below =>
          obtain ⟨hx, hy⟩ := beside.follow hd hl (by simp [Slot.vacant])
          obtain ⟨rel, hp, h1, h2⟩ := ih _ (beside.desired_mem rfl)
            (beside.addressable_desired hd hl) (beside.addressable_live hd hl) below
          refine ⟨_ :: rel, by rw [hp, ValuePath.push_append], ?_, ?_⟩
          · rw [resolve_push hx, h1]
          · rw [resolve_push hy, h2]
      | added beside =>
          obtain ⟨hx, hy⟩ := beside.follow hd hl (by simp [Slot.vacant])
          refine ⟨[_], rfl, resolve_push hx, ?_⟩
          rw [resolve, hy]
          rfl
      | removed beside =>
          obtain ⟨hx, hy⟩ := beside.follow hd hl (by simp [Slot.vacant])
          refine ⟨[_], rfl, ?_, resolve_push hy⟩
          rw [resolve, hx]
          rfl

/-! ## The other way round -/

/-- A change of the compare is, with its sides exchanged, one of the compare the other way
round. -/
theorem swap_mem (d : Value) : ∀ {path : ValuePath} {l : Value} {c : Change}, d.Plain → l.Plain →
    c ∈ diffValue gvk listMaps d l path → c.swap ∈ diffValue gvk listMaps l d path := by
  induction d using Value.inductOnParts with
  | h d ih =>
      intro path l c hd hl hc
      rw [mem_diffValue_iff]
      cases mem_diffValue_iff.mp hc with
      | whole differ unequal =>
          refine .whole (sameShape_symm d l ▸ differ) ?_
          cases hb : Value.beq l d with
          | false => rfl
          | true => rw [Value.beq_symm hl hd hb] at unequal; exact absurd unequal (by simp)
      | inside beside below =>
          have hswap := ih _ (beside.desired_mem rfl) (hd.part (beside.desired_mem rfl))
            (hl.part (beside.live_mem rfl)) below
          exact .inside (beside.swap hd hl) hswap
      | added beside => exact .removed (beside.swap hd hl)
      | removed beside => exact .added (beside.swap hd hl)

theorem mem_swap {d l : Value} {c : Change} (hd : d.Plain) (hl : l.Plain) :
    c ∈ diffValue gvk listMaps l d path ↔
      c ∈ (diffValue gvk listMaps d l path).map Change.swap := by
  rw [List.mem_map]
  refine ⟨?_, ?_⟩
  · intro hc
    exact ⟨c.swap, swap_mem l hl hd hc, c.swap_swap⟩
  · intro hex
    obtain ⟨c', hc', rfl⟩ := hex
    exact swap_mem d hd hl hc'

end SynchrotronCD
