import Mathlib.Logic.Relation
import SynchrotronCD.Diff.Slots

/-!
# What an empty diff means

`AgreeExcept ok` is the compare as a relation: two values of one shape agree when
the values side by side agree and nothing stands alone, two others when they are
equal, and at the paths in `ok` they need not. It holds exactly when every change
of the walk is at a path in `ok` (`agreeExcept_iff`); with no such path it is the
congruence that an empty diff decides.

On bodies with plain keys the congruence is an equivalence, and a list-map with
distinct keys is congruent to any reordering of it.
-/

namespace SynchrotronCD

variable [FloatText] [YamlText] {gvk : Gvk} {listMaps : ListMapKeys} {path : ValuePath}

/-- Two values at a path agree, except at the paths in `ok`. -/
inductive AgreeExcept (gvk : Gvk) (listMaps : ListMapKeys) (ok : ValuePath → Prop) :
    ValuePath → Value → Value → Prop
  /-- Two mappings, or two lists: part by part. -/
  | parts {path : ValuePath} {d l : Value} (same : sameShape d l = true)
      (both : ∀ seg x y, Beside gvk listMaps path d l ⟨seg, some x, some y⟩ →
        AgreeExcept gvk listMaps ok (path.push seg) x y)
      (added : ∀ seg x, Beside gvk listMaps path d l ⟨seg, some x, none⟩ → ok (path.push seg))
      (removed : ∀ seg y, Beside gvk listMaps path d l ⟨seg, none, some y⟩ →
        ok (path.push seg)) :
      AgreeExcept gvk listMaps ok path d l
  /-- Any other two values: as wholes. -/
  | other {path : ValuePath} {d l : Value} (differ : sameShape d l = false)
      (equal : Value.beq d l = false → ok path) :
      AgreeExcept gvk listMaps ok path d l

/-- The congruence: agreement everywhere. -/
abbrev Congruent (gvk : Gvk) (listMaps : ListMapKeys) : ValuePath → Value → Value → Prop :=
  AgreeExcept gvk listMaps fun _ => False

/-! ## The walk decides it -/

/-- **The changes are at the paths where the values do not agree.** -/
theorem agreeExcept_iff {ok : ValuePath → Prop} (d : Value) : ∀ {path : ValuePath} {l : Value},
    AgreeExcept gvk listMaps ok path d l ↔
      ∀ c ∈ diffValue gvk listMaps d l path, ok c.path := by
  induction d using Value.inductOnParts with
  | h d ih =>
      intro path l
      refine ⟨fun ha c hc => ?_, fun hall => ?_⟩
      · cases ha with
        | parts same both added removed =>
            cases mem_diffValue_iff.mp hc with
            | whole differ => rw [same] at differ; exact absurd differ (by simp)
            | inside beside below =>
                have hagree := both _ _ _ beside
                exact (ih _ (beside.desired_mem rfl)).mp hagree c below
            | added beside => exact added _ _ beside
            | removed beside => exact removed _ _ beside
        | other differ equal =>
            cases mem_diffValue_iff.mp hc with
            | whole _ unequal => exact equal unequal
            | inside beside | added beside | removed beside =>
                rw [beside.same_shape] at differ
                exact absurd differ (by simp)
      · cases hs : sameShape d l with
        | false => exact .other hs fun hb => hall _ (mem_diffValue_iff.mpr (.whole hs hb))
        | true =>
            refine .parts hs ?_ ?_ ?_
            · intro seg x y hbes
              refine (ih x (hbes.desired_mem rfl)).mpr fun c hc => ?_
              exact hall c (mem_diffValue_iff.mpr (.inside hbes hc))
            · intro seg x hbes
              exact hall _ (mem_diffValue_iff.mpr (.added hbes))
            · intro seg y hbes
              exact hall _ (mem_diffValue_iff.mpr (.removed hbes))

theorem congruent_iff {d l : Value} :
    Congruent gvk listMaps path d l ↔ diffValue gvk listMaps d l path = [] := by
  rw [Congruent, agreeExcept_iff, List.eq_nil_iff_forall_not_mem]

/-! ## An equivalence -/

/-- Every value is side by side with itself. -/
theorem Beside.eq_self {v : Value} (hv : v.Plain) {s : Slot}
    (h : Beside gvk listMaps path v v s) : s.desired = s.live := by
  cases hv with
  | mapping keys distinct values =>
      cases h with
      | desiredKey mem => exact ((entry_eq_some keys distinct (keys _ mem)).mpr mem).symm
      | liveKey mem absent =>
          rw [(entry_eq_some keys distinct (keys _ mem)).mpr mem] at absent
          exact absurd absent (by simp)
  | sequence => cases h <;> rfl
  | null | bool | number | string | tagged => cases h

/-- What stands side by side does so the other way round. -/
theorem Beside.swap {d l : Value} (hd : d.Plain) (hl : l.Plain) {s : Slot}
    (h : Beside gvk listMaps path d l s) :
    Beside gvk listMaps path l d ⟨s.segment, s.live, s.desired⟩ := by
  cases h with
  | keyed hk key i => exact .keyed hk key i
  | index hk i => exact .index hk i
  | @liveKey d l p mem absent => exact absent ▸ .desiredKey mem
  | @desiredKey d l p mem =>
      cases hd with
      | mapping keys distinct values =>
          cases hl with
          | mapping keys' distinct' values' =>
              cases he : entry l p.1 with
              | none => exact .liveKey mem he
              | some v =>
                  have hv : (p.1, v) ∈ l := (entry_eq_some keys' distinct' (keys _ mem)).mp he
                  have hp : entry d p.1 = some p.2 :=
                    (entry_eq_some keys distinct (keys _ mem)).mpr mem
                  exact hp ▸ .desiredKey hv

/-- What stands beside a part of the first value, through a third value between the two. -/
theorem Beside.through {a b c : Value} (ha : a.Plain) (hb : b.Plain)
    (hab : sameShape a b = true) (hbc : sameShape b c = true) {seg : PathSegment} {x : Value}
    {o : Option Value} (h : Beside gvk listMaps path a c ⟨seg, some x, o⟩) :
    ∃ o', Beside gvk listMaps path a b ⟨seg, some x, o'⟩ ∧
      ∀ y, o' = some y → Beside gvk listMaps path b c ⟨seg, some y, o⟩ := by
  generalize hs : (⟨seg, some x, o⟩ : Slot) = s at h
  cases h with
  | liveKey => simp at hs
  | @desiredKey d l p mem =>
      obtain ⟨rfl, hx, rfl⟩ := Slot.mk.inj hs
      obtain rfl := Option.some.inj hx
      cases ha with
      | mapping keys distinct values =>
          cases hb with
          | mapping keys' distinct' values' =>
              refine ⟨_, .desiredKey mem, ?_⟩
              intro y hy
              have hm := (entry_eq_some keys' distinct' (keys _ mem)).mp hy
              exact .desiredKey hm
          | null | bool | number | string | sequence | tagged => simp [sameShape] at hab
  | @keyed d l keys hk key i =>
      obtain ⟨rfl, hx, rfl⟩ := Slot.mk.inj hs
      cases b with
      | sequence m =>
          refine ⟨(withKey keys key m)[i]?, by rw [hx]; exact .keyed hk key i, ?_⟩
          intro y hy
          rw [← hy]
          exact .keyed hk key i
      | null | bool | number | string | mapping | tagged => simp [sameShape] at hab
  | @index d l hk i =>
      obtain ⟨rfl, hx, rfl⟩ := Slot.mk.inj hs
      cases b with
      | sequence m =>
          refine ⟨m[i]?, by rw [hx]; exact .index hk i, ?_⟩
          intro y hy
          rw [← hy]
          exact .index hk i
      | null | bool | number | string | mapping | tagged => simp [sameShape] at hab

theorem Congruent.refl {v : Value} : v.Plain → Congruent gvk listMaps path v v := by
  induction v using Value.inductOnParts generalizing path with
  | h v ih =>
      intro hv
      cases hs : sameShape v v with
      | false => exact .other hs fun hb => by rw [Value.beq_refl hv] at hb; exact absurd hb (by simp)
      | true =>
          refine .parts hs ?_ ?_ ?_
          · intro seg x y hbes
            obtain rfl : x = y := Option.some.inj (hbes.eq_self hv)
            have hx := hbes.desired_mem rfl
            exact ih x hx (hv.part hx)
          · intro seg x hbes
            exact absurd (hbes.eq_self hv) (by simp)
          · intro seg y hbes
            exact absurd (hbes.eq_self hv) (by simp)

theorem Congruent.symm {a b : Value} (h : Congruent gvk listMaps path a b) :
    a.Plain → b.Plain → Congruent gvk listMaps path b a := by
  induction h with
  | parts same both added removed ih =>
      intro ha hb
      refine .parts (sameShape_symm _ _ ▸ same) ?_ ?_ ?_
      · intro seg y x hbes
        have hswap := hbes.swap hb ha
        exact ih seg x y hswap (ha.part (hswap.desired_mem rfl)) (hb.part (hswap.live_mem rfl))
      · intro seg y hbes
        exact removed seg y (hbes.swap hb ha)
      · intro seg x hbes
        exact added seg x (hbes.swap hb ha)
  | @other path d l differ equal =>
      intro ha hb
      refine .other (sameShape_symm _ _ ▸ differ) fun hne => ?_
      cases he : Value.beq d l with
      | false => exact equal he
      | true => rw [Value.beq_symm ha hb he] at hne; exact absurd hne (by simp)

theorem Congruent.trans {a : Value} : ∀ {path : ValuePath} {b c : Value},
    Congruent gvk listMaps path a b → Congruent gvk listMaps path b c →
    a.Plain → b.Plain → c.Plain → Congruent gvk listMaps path a c := by
  induction a using Value.inductOnParts with
  | h a ih =>
      intro path b c hab hbc ha hb hc
      cases hab with
      | other differ equal =>
          have heq : Value.beq a b = true := by
            cases he : Value.beq a b with
            | true => rfl
            | false => exact (equal he).elim
          cases hbc with
          | parts same =>
              -- equal values have one shape
              have := beq_eq_false_of_shape (sameShape_symm b c ▸ same)
                (sameShape_symm a b ▸ differ)
              have hba := Value.beq_symm ha hb heq
              rw [hba] at this
              exact absurd this (by simp)
          | other differ' equal' =>
              have heq' : Value.beq b c = true := by
                cases he : Value.beq b c with
                | true => rfl
                | false => exact (equal' he).elim
              have hac := Value.beq_trans ha hb hc heq heq'
              refine .other ?_ fun hne => by rw [hac] at hne; exact absurd hne (by simp)
              cases hs : sameShape a c with
              | false => rfl
              | true =>
                  have := beq_eq_false_of_shape (sameShape_symm a c ▸ hs) differ
                  rw [heq] at this
                  exact absurd this (by simp)
      | parts same both added removed =>
          cases hbc with
          | other differ' equal' => exact (equal' (beq_eq_false_of_shape same differ')).elim
          | parts same' both' added' removed' =>
              have through : ∀ {seg x o}, Beside gvk listMaps path a c ⟨seg, some x, o⟩ →
                  ∃ y, Beside gvk listMaps path a b ⟨seg, some x, some y⟩ ∧
                    Beside gvk listMaps path b c ⟨seg, some y, o⟩ := by
                intro seg x o hbes
                obtain ⟨o', hab, hbc⟩ := hbes.through ha hb same same'
                cases o' with
                | none => exact (added seg x hab).elim
                | some y => exact ⟨y, hab, hbc y rfl⟩
              refine .parts (sameShape_trans same same') ?_ ?_ ?_
              · intro seg x z hbes
                obtain ⟨y, hxy, hyz⟩ := through hbes
                exact ih x (hxy.desired_mem rfl) (both seg x y hxy) (both' seg y z hyz)
                  (ha.part (hxy.desired_mem rfl)) (hb.part (hxy.live_mem rfl))
                  (hc.part (hyz.live_mem rfl))
              · intro seg x hbes
                obtain ⟨y, -, hy⟩ := through hbes
                exact added' seg y hy
              · intro seg z hbes
                -- a part of the last value alone: from its side, through the middle one
                obtain ⟨o', hcb, hba⟩ := (hbes.swap ha hc).through hc hb
                  (sameShape_symm b c ▸ same') (sameShape_symm a b ▸ same)
                cases o' with
                | none => exact removed' seg z (hcb.swap hc hb)
                | some y => exact removed seg y ((hba y rfl).swap hb ha)

/-! ## Congruence from its parts -/

/-- Parts side by side that are congruent make congruent wholes. -/
theorem Congruent.ofSlots {d l : Value} (same : sameShape d l = true)
    (h : ∀ s, Beside gvk listMaps path d l s → s.vacant ∨
      ∃ x y, s.desired = some x ∧ s.live = some y ∧
        Congruent gvk listMaps (path.push s.segment) x y) :
    Congruent gvk listMaps path d l := by
  refine .parts same ?_ ?_ ?_
  · intro seg x y hbes
    rcases h _ hbes with ⟨hv, -⟩ | ⟨x', y', hx, hy, hc⟩
    · exact absurd hv (by simp)
    · obtain rfl := Option.some.inj hx
      obtain rfl := Option.some.inj hy
      exact hc
  · intro seg x hbes
    rcases h _ hbes with ⟨hv, -⟩ | ⟨x', y', hx, hy, hc⟩
    · exact absurd hv (by simp)
    · exact absurd hy (by simp)
  · intro seg y hbes
    rcases h _ hbes with ⟨-, hv⟩ | ⟨x', y', hx, hy, hc⟩
    · exact absurd hv (by simp)
    · exact absurd hx (by simp)

/-- A slot with the same plain value on both sides. -/
theorem slot_self (o : Option Value) (h : ∀ x, o = some x → x.Plain) (seg : PathSegment) :
    (⟨seg, o, o⟩ : Slot).vacant ∨ ∃ x y, o = some x ∧ o = some y ∧
      Congruent gvk listMaps (path.push seg) x y := by
  cases o with
  | none => exact Or.inl ⟨rfl, rfl⟩
  | some x => exact Or.inr ⟨x, x, rfl, rfl, Congruent.refl (h x rfl)⟩

end SynchrotronCD
