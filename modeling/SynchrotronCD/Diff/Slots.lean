import SynchrotronCD.Diff.Compare

/-!
# What the compare puts side by side

The compare of two mappings or two lists goes slot by slot: a segment, and what
each side has there. `slots` lists them in the order of the walk, and the
changes are those of the slots in turn (`diffValue_parts`). `Beside` says the
same without the walk: an entry is beside the entry under its key, an element of
a list-map beside the one with the same keys that has as many of these before it,
any other element beside the one at its index.
-/

namespace SynchrotronCD

/-- Values that are compared part by part. -/
def sameShape : Value → Value → Bool
  | .mapping _, .mapping _ => true
  | .sequence _, .sequence _ => true
  | _, _ => false

theorem sameShape_iff {a b : Value} : sameShape a b = true ↔
    (∃ d l, a = .mapping d ∧ b = .mapping l) ∨ ∃ xs ys, a = .sequence xs ∧ b = .sequence ys := by
  constructor
  · intro h
    cases a with
    | mapping d =>
        cases b with
        | mapping l => exact .inl ⟨d, l, rfl, rfl⟩
        | null | bool | number | string | sequence | tagged => simp [sameShape] at h
    | sequence xs =>
        cases b with
        | sequence ys => exact .inr ⟨xs, ys, rfl, rfl⟩
        | null | bool | number | string | mapping | tagged => simp [sameShape] at h
    | null | bool | number | string | tagged => simp [sameShape] at h
  · rintro (⟨d, l, rfl, rfl⟩ | ⟨xs, ys, rfl, rfl⟩)
    · rfl
    · rfl

theorem sameShape_symm (a b : Value) : sameShape a b = sameShape b a := by
  rw [Bool.eq_iff_iff, sameShape_iff, sameShape_iff]
  constructor
  · rintro (⟨d, l, ha, hb⟩ | ⟨xs, ys, ha, hb⟩)
    · exact .inl ⟨l, d, hb, ha⟩
    · exact .inr ⟨ys, xs, hb, ha⟩
  · rintro (⟨d, l, ha, hb⟩ | ⟨xs, ys, ha, hb⟩)
    · exact .inl ⟨l, d, hb, ha⟩
    · exact .inr ⟨ys, xs, hb, ha⟩

theorem beq_eq_false_of_shape {a b c : Value} (hab : sameShape a b = true)
    (hbc : sameShape b c = false) : Value.beq b c = false := by
  rcases sameShape_iff.mp hab with ⟨d, l, rfl, rfl⟩ | ⟨xs, ys, rfl, rfl⟩
  · cases c with
    | mapping => simp [sameShape] at hbc
    | null | bool | number | string | sequence | tagged => simp [Value.beq]
  · cases c with
    | sequence => simp [sameShape] at hbc
    | null | bool | number | string | mapping | tagged => simp [Value.beq]

theorem sameShape_trans {a b c : Value} (hab : sameShape a b = true)
    (hbc : sameShape b c = true) : sameShape a c = true := by
  rcases sameShape_iff.mp hab with ⟨d, l, rfl, rfl⟩ | ⟨xs, ys, rfl, rfl⟩
  · rcases sameShape_iff.mp hbc with ⟨_, _, -, rfl⟩ | ⟨_, _, h, -⟩
    · rfl
    · cases h
  · rcases sameShape_iff.mp hbc with ⟨_, _, h, -⟩ | ⟨_, _, -, rfl⟩
    · cases h
    · rfl

structure Slot where
  segment : PathSegment
  desired : Option Value
  live : Option Value

/-- A slot that neither side fills. -/
def Slot.vacant (s : Slot) : Prop := s.desired = none ∧ s.live = none

/-- Elements by position, from index `i` on. -/
def alignIndexed : Nat → List Value → List Value → List Slot
  | _, [], [] => []
  | i, [], y :: l => ⟨.index i, none, some y⟩ :: alignIndexed (i + 1) [] l
  | i, x :: d, [] => ⟨.index i, some x, none⟩ :: alignIndexed (i + 1) d []
  | i, x :: d, y :: l => ⟨.index i, some x, some y⟩ :: alignIndexed (i + 1) d l

variable [FloatText] [YamlText] {gvk : Gvk} {listMaps : ListMapKeys} {path : ValuePath}

/-- Elements by key, the desired ones in turn and then what is left of live. -/
def alignKeyed (keys : List String) : List Value → List Value → List Slot
  | [], l => l.map fun y => ⟨.keyed (extractKeys y keys), none, some y⟩
  | x :: d, l =>
    match takeMatch keys (extractKeys x keys) l with
    | some (y, rest) => ⟨.keyed (extractKeys x keys), some x, some y⟩ :: alignKeyed keys d rest
    | none => ⟨.keyed (extractKeys x keys), some x, none⟩ :: alignKeyed keys d l

def slots (gvk : Gvk) (listMaps : ListMapKeys) (path : ValuePath) : Value → Value → List Slot
  | .mapping d, .mapping l =>
    d.map (fun p => ⟨.field (fieldName p.1), some p.2, entry l p.1⟩)
      ++ (l.filter fun p => (entry d p.1).isNone).map
        fun p => ⟨.field (fieldName p.1), none, some p.2⟩
  | .sequence d, .sequence l =>
    match listMaps.keysFor gvk path with
    | some keys => alignKeyed keys d l
    | none => alignIndexed 0 d l
  | _, _ => []

/-- The changes that a slot gives. -/
def slotChanges (gvk : Gvk) (listMaps : ListMapKeys) (path : ValuePath) (s : Slot) :
    List Change :=
  match s.desired, s.live with
  | some x, some y => diffValue gvk listMaps x y (path.push s.segment)
  | some x, none => [.added (path.push s.segment) x]
  | none, some y => [.removed (path.push s.segment) y]
  | none, none => []

/-! ## The walk, slot by slot -/

theorem diffEntries_eq {d l : List (Value × Value)} :
    diffEntries gvk listMaps d l path =
      (d.map fun p => (⟨.field (fieldName p.1), some p.2, entry l p.1⟩ : Slot)).flatMap
        (slotChanges gvk listMaps path) := by
  induction d with
  | nil => rw [diffEntries]; rfl
  | cons p d ih =>
      obtain ⟨k, v⟩ := p
      rw [diffEntries, ih, List.map_cons, List.flatMap_cons]
      congr 1
      unfold slotChanges
      cases entry l k <;> rfl

theorem removedFrom_eq {l : List Value} : ∀ i : Nat, removedFrom path i l =
    (alignIndexed i [] l).flatMap (slotChanges gvk listMaps path) := by
  induction l with
  | nil =>
      intro i
      rw [removedFrom, alignIndexed]
      rfl
  | cons y l ih =>
      intro i
      rw [removedFrom, alignIndexed, List.flatMap_cons, ih (i + 1)]
      rfl

theorem diffPositional_eq {d : List Value} : ∀ (l : List Value) (i : Nat),
    diffPositional gvk listMaps d l i path =
      (alignIndexed i d l).flatMap (slotChanges gvk listMaps path) := by
  induction d with
  | nil =>
      intro l i
      rw [diffPositional]
      exact removedFrom_eq i
  | cons x d ih =>
      intro l i
      cases l with
      | nil =>
          rw [diffPositional, alignIndexed, List.flatMap_cons, ih [] (i + 1)]
          rfl
      | cons y l =>
          rw [diffPositional, alignIndexed, List.flatMap_cons, ih l (i + 1)]
          rfl

theorem diffListmap_eq {keys : List String} {d : List Value} : ∀ l : List Value,
    diffListmap gvk listMaps d l keys path =
      (alignKeyed keys d l).flatMap (slotChanges gvk listMaps path) := by
  induction d with
  | nil =>
      intro l
      rw [diffListmap, alignKeyed, List.flatMap_map]
      exact (List.flatMap_singleton' _).symm.trans (by rw [List.flatMap_map]; rfl)
  | cons x d ih =>
      intro l
      rw [diffListmap, alignKeyed]
      cases takeMatch keys (extractKeys x keys) l with
      | none => rw [List.flatMap_cons, ← ih l]; rfl
      | some m =>
          obtain ⟨y, rest⟩ := m
          rw [List.flatMap_cons, ← ih rest]
          rfl

/-- **Two values of one shape: the changes are those of the slots in turn.** -/
theorem diffValue_parts {d l : Value} (h : sameShape d l = true) :
    diffValue gvk listMaps d l path =
      (slots gvk listMaps path d l).flatMap (slotChanges gvk listMaps path) := by
  match d, l, h with
  | .mapping d, .mapping l, _ =>
      rw [diffValue, slots, List.flatMap_append, ← diffEntries_eq, List.flatMap_map]
      congr 1
      rw [← List.flatMap_singleton' (List.map _ _), List.flatMap_map]
      rfl
  | .sequence d, .sequence l, _ =>
      rw [diffValue, slots]
      cases listMaps.keysFor gvk path with
      | some keys => exact diffListmap_eq l
      | none => exact diffPositional_eq l 0

/-- Two values of different shapes, or scalars: they are equal, or that is the change. -/
theorem diffValue_other {d l : Value} (h : sameShape d l = false) :
    diffValue gvk listMaps d l path =
      if Value.beq d l = true then [] else [.modified path d l] := by
  cases d <;> cases l <;> first | rfl | simp [sameShape] at h

/-! ## Which slots there are -/

/-- The elements of a list that have these keys. -/
def withKey (keys : List String) (key : List (String × String)) (xs : List Value) : List Value :=
  xs.filter fun x => extractKeys x keys = key

/-- What stands side by side in two values of one shape, at a segment. -/
inductive Beside (gvk : Gvk) (listMaps : ListMapKeys) (path : ValuePath) :
    Value → Value → Slot → Prop
  /-- A desired entry, and what live has under its key. -/
  | desiredKey {d l : List (Value × Value)} {p : Value × Value} (mem : p ∈ d) :
      Beside gvk listMaps path (.mapping d) (.mapping l)
        ⟨.field (fieldName p.1), some p.2, entry l p.1⟩
  /-- A live entry whose key desired does not have. -/
  | liveKey {d l : List (Value × Value)} {p : Value × Value} (mem : p ∈ l)
      (absent : entry d p.1 = none) :
      Beside gvk listMaps path (.mapping d) (.mapping l)
        ⟨.field (fieldName p.1), none, some p.2⟩
  /-- The `i`-th elements with a key, in a list-map. -/
  | keyed {d l : List Value} {keys : List String}
      (registered : listMaps.keysFor gvk path = some keys) (key : List (String × String))
      (i : Nat) :
      Beside gvk listMaps path (.sequence d) (.sequence l)
        ⟨.keyed key, (withKey keys key d)[i]?, (withKey keys key l)[i]?⟩
  /-- The elements at an index, in any other list. -/
  | index {d l : List Value} (positional : listMaps.keysFor gvk path = none) (i : Nat) :
      Beside gvk listMaps path (.sequence d) (.sequence l) ⟨.index i, d[i]?, l[i]?⟩

theorem withKey_cons_self {keys : List String} {x : Value} (xs : List Value) :
    withKey keys (extractKeys x keys) (x :: xs) =
      x :: withKey keys (extractKeys x keys) xs := by
  simp [withKey]

theorem withKey_cons_ne {keys : List String} {key : List (String × String)} {x : Value}
    (h : extractKeys x keys ≠ key) (xs : List Value) :
    withKey keys key (x :: xs) = withKey keys key xs := by
  simp [withKey, h]

theorem mem_withKey {keys : List String} {key : List (String × String)} {xs : List Value}
    {x : Value} : x ∈ withKey keys key xs ↔ x ∈ xs ∧ extractKeys x keys = key := by
  simp [withKey]

/-- The match taken is the first element of its keys; those of other keys stay as they are. -/
theorem takeMatch_some {keys : List String} {key : List (String × String)} {y : Value}
    {rest : List Value} : ∀ {l : List Value}, takeMatch keys key l = some (y, rest) →
    withKey keys key l = y :: withKey keys key rest ∧
      ∀ key', key' ≠ key → withKey keys key' l = withKey keys key' rest
  | [], h => by simp [takeMatch] at h
  | z :: l, h => by
      rw [takeMatch] at h
      by_cases hz : extractKeys z keys = key
      · rw [if_pos hz, Option.some.injEq, Prod.mk.injEq] at h
        obtain ⟨rfl, rfl⟩ := h
        subst hz
        exact ⟨withKey_cons_self _, fun key' hne => withKey_cons_ne (Ne.symm hne) _⟩
      · rw [if_neg hz, Option.map_eq_some_iff] at h
        obtain ⟨⟨w, rest'⟩, htail, heq⟩ := h
        obtain ⟨rfl, rfl⟩ := Prod.mk.inj heq
        obtain ⟨hself, hother⟩ := takeMatch_some htail
        refine ⟨?_, fun key' hne => ?_⟩
        · rw [withKey_cons_ne hz, withKey_cons_ne hz]
          exact hself
        · by_cases hz' : extractKeys z keys = key'
          · subst hz'
            rw [withKey_cons_self, withKey_cons_self, hother _ hne]
          · rw [withKey_cons_ne hz', withKey_cons_ne hz', hother _ hne]

theorem takeMatch_none {keys : List String} {key : List (String × String)} :
    ∀ {l : List Value}, takeMatch keys key l = none → withKey keys key l = []
  | [], _ => rfl
  | z :: l, h => by
      rw [takeMatch] at h
      by_cases hz : extractKeys z keys = key
      · rw [if_pos hz] at h
        exact absurd h (by simp)
      · rw [if_neg hz, Option.map_eq_none_iff] at h
        rw [withKey_cons_ne hz]
        exact takeMatch_none h

omit [FloatText] [YamlText] in
/-- The slots from an index on: the one there, and those from the next on. -/
theorem indexed_cons {s : Slot} {i : Nat} {d l : Nat → Option Value}
    (h : ¬ (⟨.index i, d 0, l 0⟩ : Slot).vacant) :
    (s = ⟨.index i, d 0, l 0⟩ ∨
        ∃ j, s = ⟨.index (i + 1 + j), d (j + 1), l (j + 1)⟩ ∧ ¬ s.vacant) ↔
      ∃ j, s = ⟨.index (i + j), d j, l j⟩ ∧ ¬ s.vacant := by
  refine ⟨?_, ?_⟩
  · intro hor
    rcases hor with rfl | ⟨j, rfl, hv⟩
    · exact ⟨0, rfl, h⟩
    · exact ⟨j + 1, by rw [Nat.add_assoc, Nat.add_comm 1], hv⟩
  · intro hex
    obtain ⟨j, rfl, hv⟩ := hex
    cases j with
    | zero => exact Or.inl rfl
    | succ j => exact Or.inr ⟨j, by rw [Nat.add_assoc, Nat.add_comm 1], hv⟩

omit [FloatText] [YamlText] in
theorem mem_alignIndexed {s : Slot} : ∀ {d l : List Value} {i : Nat},
    s ∈ alignIndexed i d l ↔ ∃ j, s = ⟨.index (i + j), d[j]?, l[j]?⟩ ∧ ¬ s.vacant
  | [], [], i => by
      simp only [alignIndexed, List.not_mem_nil, false_iff]
      intro hex
      obtain ⟨j, rfl, hv⟩ := hex
      exact hv ⟨rfl, rfl⟩
  | [], y :: l, i => by
      rw [alignIndexed, List.mem_cons, mem_alignIndexed,
        ← indexed_cons (i := i) (d := fun j => ([] : List Value)[j]?) (l := fun j => (y :: l)[j]?)
          (by simp [Slot.vacant])]
      rfl
  | x :: d, [], i => by
      rw [alignIndexed, List.mem_cons, mem_alignIndexed,
        ← indexed_cons (i := i) (d := fun j => (x :: d)[j]?) (l := fun j => ([] : List Value)[j]?)
          (by simp [Slot.vacant])]
      rfl
  | x :: d, y :: l, i => by
      rw [alignIndexed, List.mem_cons, mem_alignIndexed,
        ← indexed_cons (i := i) (d := fun j => (x :: d)[j]?) (l := fun j => (y :: l)[j]?)
          (by simp [Slot.vacant])]
      rfl

/-- The slots of keyed elements: the first of its key, and those of the elements that are left. -/
theorem keyed_cons {keys : List String} {s : Slot} {x : Value} {o : Option Value}
    {d l rest : List Value}
    (hhead : (withKey keys (extractKeys x keys) l)[0]? = o)
    (htail : ∀ i : Nat, (withKey keys (extractKeys x keys) l)[i + 1]? =
      (withKey keys (extractKeys x keys) rest)[i]?)
    (hother : ∀ key, key ≠ extractKeys x keys → withKey keys key l = withKey keys key rest) :
    (s = ⟨.keyed (extractKeys x keys), some x, o⟩ ∨
        ∃ key, ∃ i : Nat,
          s = ⟨.keyed key, (withKey keys key d)[i]?, (withKey keys key rest)[i]?⟩ ∧ ¬ s.vacant) ↔
      ∃ key, ∃ i : Nat,
        s = ⟨.keyed key, (withKey keys key (x :: d))[i]?, (withKey keys key l)[i]?⟩ ∧
          ¬ s.vacant := by
  refine ⟨?_, ?_⟩
  · intro hor
    rcases hor with rfl | ⟨key, i, rfl, hv⟩
    · exact ⟨_, 0, by rw [withKey_cons_self, hhead]; rfl, by simp [Slot.vacant]⟩
    · by_cases hk : extractKeys x keys = key
      · subst hk
        exact ⟨_, i + 1, by rw [withKey_cons_self, htail]; rfl, hv⟩
      · exact ⟨key, i, by rw [withKey_cons_ne hk, hother key (Ne.symm hk)], hv⟩
  · intro hex
    obtain ⟨key, i, rfl, hv⟩ := hex
    by_cases hk : extractKeys x keys = key
    · subst hk
      cases i with
      | zero => exact Or.inl (by rw [withKey_cons_self, hhead]; rfl)
      | succ i => exact Or.inr ⟨_, i, by rw [withKey_cons_self, htail]; rfl, hv⟩
    · exact Or.inr ⟨key, i, by rw [withKey_cons_ne hk, hother key (Ne.symm hk)], hv⟩

theorem mem_alignKeyed {keys : List String} {s : Slot} : ∀ {d l : List Value},
    s ∈ alignKeyed keys d l ↔
      ∃ key, ∃ i : Nat,
        s = ⟨.keyed key, (withKey keys key d)[i]?, (withKey keys key l)[i]?⟩ ∧ ¬ s.vacant
  | [], l => by
      rw [alignKeyed, List.mem_map]
      refine ⟨?_, ?_⟩
      · intro hex
        obtain ⟨y, hy, rfl⟩ := hex
        obtain ⟨i, hi⟩ := List.mem_iff_getElem?.mp (mem_withKey.mpr ⟨hy, rfl⟩)
        exact ⟨_, i, by rw [hi]; rfl, by simp [Slot.vacant]⟩
      · intro hex
        obtain ⟨key, i, rfl, hv⟩ := hex
        cases hi : (withKey keys key l)[i]? with
        | none => exact absurd ⟨rfl, hi⟩ hv
        | some y =>
            obtain ⟨hy, rfl⟩ := mem_withKey.mp (List.mem_of_getElem? hi)
            exact ⟨y, hy, rfl⟩
  | x :: d, l => by
      rw [alignKeyed]
      cases hm : takeMatch keys (extractKeys x keys) l with
      | some m =>
          obtain ⟨y, rest⟩ := m
          obtain ⟨hself, hother⟩ := takeMatch_some hm
          show s ∈ _ :: _ ↔ _
          rw [List.mem_cons, mem_alignKeyed]
          exact keyed_cons (by rw [hself]; rfl) (fun i => by rw [hself]; rfl) hother
      | none =>
          have hnil := takeMatch_none hm
          show s ∈ _ :: _ ↔ _
          rw [List.mem_cons, mem_alignKeyed]
          exact keyed_cons (by rw [hnil]; rfl) (fun i => by rw [hnil]; rfl) fun _ _ => rfl

/-- **The walk visits what stands side by side, and nothing else.** -/
theorem mem_slots {d l : Value} {s : Slot} :
    s ∈ slots gvk listMaps path d l ↔ Beside gvk listMaps path d l s ∧ ¬ s.vacant := by
  match d, l with
  | .mapping d, .mapping l =>
      rw [slots, List.mem_append, List.mem_map, List.mem_map]
      refine ⟨?_, ?_⟩
      · intro hor
        rcases hor with ⟨p, hp, rfl⟩ | ⟨p, hp, rfl⟩
        · exact ⟨.desiredKey hp, by simp [Slot.vacant]⟩
        · obtain ⟨hp, habs⟩ := List.mem_filter.mp hp
          exact ⟨.liveKey hp (by simpa using habs), by simp [Slot.vacant]⟩
      · intro hboth
        obtain ⟨hb, -⟩ := hboth
        cases hb with
        | desiredKey hp => exact Or.inl ⟨_, hp, rfl⟩
        | liveKey hp habs => exact Or.inr ⟨_, List.mem_filter.mpr ⟨hp, by simp [habs]⟩, rfl⟩
  | .sequence d, .sequence l =>
      rw [slots]
      cases hk : listMaps.keysFor gvk path with
      | some keys =>
          show s ∈ alignKeyed keys d l ↔ _
          rw [mem_alignKeyed]
          refine ⟨?_, ?_⟩
          · intro hex
            obtain ⟨key, i, rfl, hv⟩ := hex
            exact ⟨.keyed hk key i, hv⟩
          · intro hboth
            obtain ⟨hb, hv⟩ := hboth
            cases hb with
            | keyed hk' key i =>
                obtain rfl : keys = _ := Option.some.inj (hk.symm.trans hk')
                exact ⟨key, i, rfl, hv⟩
            | index hk' i => rw [hk] at hk'; exact absurd hk' (by simp)
      | none =>
          show s ∈ alignIndexed 0 d l ↔ _
          rw [mem_alignIndexed]
          refine ⟨?_, ?_⟩
          · intro hex
            obtain ⟨j, rfl, hv⟩ := hex
            rw [Nat.zero_add] at hv ⊢
            exact ⟨.index hk j, hv⟩
          · intro hboth
            obtain ⟨hb, hv⟩ := hboth
            cases hb with
            | keyed hk' key i => rw [hk] at hk'; exact absurd hk' (by simp)
            | index hk' i => exact ⟨i, by rw [Nat.zero_add], hv⟩
  | .null, _ | .bool _, _ | .number _, _ | .string _, _ | .tagged _ _, _
  | .mapping _, .null | .mapping _, .bool _ | .mapping _, .number _ | .mapping _, .string _
  | .mapping _, .sequence _ | .mapping _, .tagged _ _
  | .sequence _, .null | .sequence _, .bool _ | .sequence _, .number _ | .sequence _, .string _
  | .sequence _, .mapping _ | .sequence _, .tagged _ _ =>
      simp only [slots, List.not_mem_nil, false_iff]
      intro hboth
      obtain ⟨hb, -⟩ := hboth
      cases hb

theorem Beside.same_shape {d l : Value} {s : Slot} (h : Beside gvk listMaps path d l s) :
    sameShape d l = true := by
  cases h <;> rfl

/-- **The changes of a part-by-part compare come from its slots.** -/
theorem mem_diffValue {d l : Value} {c : Change} (h : sameShape d l = true) :
    c ∈ diffValue gvk listMaps d l path ↔
      ∃ s, Beside gvk listMaps path d l s ∧ c ∈ slotChanges gvk listMaps path s := by
  rw [diffValue_parts h, List.mem_flatMap]
  refine ⟨?_, ?_⟩
  · intro hex
    obtain ⟨s, hs, hc⟩ := hex
    exact ⟨s, (mem_slots.mp hs).1, hc⟩
  · intro hex
    obtain ⟨s, hs, hc⟩ := hex
    refine ⟨s, mem_slots.mpr ⟨hs, ?_⟩, hc⟩
    intro hboth
    obtain ⟨h1, h2⟩ := hboth
    simp [slotChanges, h1, h2] at hc

/-- Where a change comes from. -/
inductive Reported (gvk : Gvk) (listMaps : ListMapKeys) (path : ValuePath) (d l : Value) :
    Change → Prop
  /-- The two values differ as wholes. -/
  | whole (differ : sameShape d l = false) (unequal : Value.beq d l = false) :
      Reported gvk listMaps path d l (.modified path d l)
  /-- Two parts side by side. -/
  | inside {seg : PathSegment} {x y : Value} {c : Change}
      (beside : Beside gvk listMaps path d l ⟨seg, some x, some y⟩)
      (below : c ∈ diffValue gvk listMaps x y (path.push seg)) : Reported gvk listMaps path d l c
  /-- A desired part with nothing beside it. -/
  | added {seg : PathSegment} {x : Value}
      (beside : Beside gvk listMaps path d l ⟨seg, some x, none⟩) :
      Reported gvk listMaps path d l (.added (path.push seg) x)
  /-- A live part with nothing beside it. -/
  | removed {seg : PathSegment} {y : Value}
      (beside : Beside gvk listMaps path d l ⟨seg, none, some y⟩) :
      Reported gvk listMaps path d l (.removed (path.push seg) y)

/-- **All that the compare of two values can report.** -/
theorem mem_diffValue_iff {d l : Value} {c : Change} :
    c ∈ diffValue gvk listMaps d l path ↔ Reported gvk listMaps path d l c := by
  refine ⟨fun hc => ?_, fun hc => ?_⟩
  · cases hs : sameShape d l with
    | false =>
        rw [diffValue_other hs] at hc
        cases hb : Value.beq d l with
        | true => rw [hb] at hc; exact absurd hc List.not_mem_nil
        | false =>
            rw [hb] at hc
            obtain rfl := List.mem_singleton.mp hc
            exact .whole hs hb
    | true =>
        obtain ⟨⟨seg, o, o'⟩, hbes, hc⟩ := (mem_diffValue hs).mp hc
        match o, o' with
        | some x, some y => exact .inside hbes hc
        | some x, none =>
            obtain rfl := List.mem_singleton.mp hc
            exact .added hbes
        | none, some y =>
            obtain rfl := List.mem_singleton.mp hc
            exact .removed hbes
        | none, none => exact absurd hc (by simp [slotChanges])
  · cases hc with
    | whole differ unequal =>
        rw [diffValue_other differ, unequal]
        exact List.mem_singleton_self _
    | inside beside below => exact (mem_diffValue beside.same_shape).mpr ⟨_, beside, below⟩
    | added beside =>
        exact (mem_diffValue beside.same_shape).mpr ⟨_, beside, List.mem_singleton_self _⟩
    | removed beside =>
        exact (mem_diffValue beside.same_shape).mpr ⟨_, beside, List.mem_singleton_self _⟩

/-! ## Slots hold parts -/

theorem Beside.desired_mem {d l : Value} {s : Slot} (h : Beside gvk listMaps path d l s)
    {x : Value} (hx : s.desired = some x) : x ∈ d.parts := by
  cases h with
  | desiredKey mem =>
      obtain rfl := Option.some.inj hx
      exact List.mem_map_of_mem mem
  | liveKey mem absent => exact absurd hx (by simp)
  | keyed hk key i => exact (mem_withKey.mp (List.mem_of_getElem? hx)).1
  | index hk i => exact List.mem_of_getElem? (show _ = some x from hx)

theorem Beside.live_mem {d l : Value} {s : Slot} (h : Beside gvk listMaps path d l s)
    {y : Value} (hy : s.live = some y) : y ∈ l.parts := by
  cases h with
  | desiredKey mem =>
      obtain ⟨k', hm, -⟩ := entry_mem hy
      exact List.mem_map_of_mem hm
  | liveKey mem absent =>
      obtain rfl := Option.some.inj hy
      exact List.mem_map_of_mem mem
  | keyed hk key i => exact (mem_withKey.mp (List.mem_of_getElem? hy)).1
  | index hk i => exact List.mem_of_getElem? (show _ = some y from hy)

end SynchrotronCD
