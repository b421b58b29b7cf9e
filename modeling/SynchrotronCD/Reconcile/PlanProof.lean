import Mathlib.Data.List.Induction
import SynchrotronCD.Reconcile.Plan

/-!
# What a plan says

An index holds the last manifest with each reference (`lastWithRef`), and
`mem_plan` says which entries a plan has in terms of the two indexes. Everything
later proofs need to know about a plan follows from that one lemma.

The planner compares bodies by tiers, and the first tier is a hash of the text.
`body_equality` and `plan_quiet` say what that costs: equal values that are
written differently are told apart, and applied again, unless their texts happen
to have one hash.
-/

namespace SynchrotronCD

open Lib

/-! ## Indexes -/

/-- The last manifest with reference `r`, which is the one an index holds. -/
def lastWithRef (ms : List Manifest) (r : ResourceRef) : Option Manifest :=
  (indexByRef ms).lookup r

theorem indexByRef_snoc (ms : List Manifest) (m : Manifest) :
    indexByRef (ms ++ [m]) = (indexByRef ms).insert (ResourceRef.of m) m := by
  simp [indexByRef, List.foldl_append]

@[simp] theorem lastWithRef_nil (r : ResourceRef) : lastWithRef [] r = none := rfl

@[simp] theorem lastWithRef_snoc (ms : List Manifest) (m : Manifest) (r : ResourceRef) :
    lastWithRef (ms ++ [m]) r = if r = ResourceRef.of m then some m else lastWithRef ms r := by
  unfold lastWithRef
  rw [indexByRef_snoc]
  split
  · rename_i h; subst h; exact AList.lookup_insert _
  · rename_i h; exact AList.lookup_insert_ne h

theorem lastWithRef_some {ms : List Manifest} {r : ResourceRef} {m : Manifest}
    (h : lastWithRef ms r = some m) : m ∈ ms ∧ ResourceRef.of m = r := by
  induction ms using List.reverseRecOn with
  | nil => simp at h
  | append_singleton ms x ih =>
      rw [lastWithRef_snoc] at h
      split at h
      · rename_i hr
        obtain rfl : x = m := Option.some.inj h
        exact ⟨by simp, hr.symm⟩
      · obtain ⟨h1, h2⟩ := ih h
        exact ⟨List.mem_append_left _ h1, h2⟩

theorem lastWithRef_none {ms : List Manifest} {r : ResourceRef} :
    lastWithRef ms r = none ↔ ∀ m ∈ ms, ResourceRef.of m ≠ r := by
  induction ms using List.reverseRecOn with
  | nil => simp
  | append_singleton ms x ih =>
      rw [lastWithRef_snoc]
      split
      · rename_i hr
        simp only [reduceCtorEq, false_iff, not_forall]
        exact ⟨x, by simp, fun h => h hr.symm⟩
      · rename_i hr
        rw [ih]
        refine ⟨?_, ?_⟩
        · intro h m hm
          rcases List.mem_append.mp hm with hm | hm
          · exact h m hm
          · rw [List.mem_singleton.mp hm]; exact Ne.symm hr
        · exact fun h m hm => h m (List.mem_append_left _ hm)

theorem lastWithRef_isSome {ms : List Manifest} {m : Manifest} (hm : m ∈ ms) :
    ∃ m', lastWithRef ms (ResourceRef.of m) = some m' := by
  cases h : lastWithRef ms (ResourceRef.of m) with
  | none => exact absurd rfl (lastWithRef_none.mp h m hm)
  | some m' => exact ⟨m', rfl⟩

/-- A reference that occurs once is looked up as itself. -/
theorem lastWithRef_singleton (m : Manifest) : lastWithRef [m] (ResourceRef.of m) = some m := by
  have := lastWithRef_snoc [] m (ResourceRef.of m)
  simpa using this

/-! ## Entries -/

/--
**The entries of a plan.** A reference that is desired is applied, or left alone
if the live body is equal; one that is only live is deleted.
-/
theorem mem_plan {desired live : List Manifest} {e : PlanEntry} :
    e ∈ (plan desired live).entries ↔
      (∃ d, lastWithRef desired e.resource = some d
        ∧ e.action = actionFor d (lastWithRef live e.resource))
      ∨ (lastWithRef desired e.resource = none ∧ lastWithRef live e.resource ≠ none
        ∧ e.action = .delete) := by
  -- sorting changes no membership, and the two indices are looked up by reference
  unfold plan lastWithRef
  simp only [List.mem_insertionSort, List.mem_append, List.mem_map, List.mem_filter,
    decide_eq_true_eq]
  refine ⟨?_, ?_⟩
  · intro h
    rcases h with ⟨⟨r, d⟩, hd, rfl⟩ | ⟨r, ⟨hl, hd⟩, rfl⟩
    · exact Or.inl ⟨d, AList.mem_lookup_iff.mpr hd, rfl⟩
    · refine Or.inr ⟨AList.lookup_eq_none.mpr hd, ?_, rfl⟩
      rw [ne_eq, AList.lookup_eq_none, not_not]
      exact hl
  · obtain ⟨r, a⟩ := e
    dsimp only
    intro h
    rcases h with ⟨d, hd, rfl⟩ | ⟨hd, hl, rfl⟩
    · exact Or.inl ⟨⟨r, d⟩, AList.mem_lookup_iff.mp hd, rfl⟩
    · rw [ne_eq, AList.lookup_eq_none, not_not] at hl
      exact Or.inr ⟨r, ⟨hl, AList.lookup_eq_none.mp hd⟩, rfl⟩

theorem actionFor_ne_delete (d : Manifest) (l : Option Manifest) : actionFor d l ≠ .delete := by
  cases l with
  | none => simp [actionFor]
  | some l => by_cases h : manifestBodiesEqual d l = true <;> simp [actionFor, h]

/-- **A delete is planned for exactly the references that are live and not desired.** -/
theorem delete_mem_plan {desired live : List Manifest} {r : ResourceRef} :
    ⟨r, .delete⟩ ∈ (plan desired live).entries ↔
      (∀ d ∈ desired, ResourceRef.of d ≠ r) ∧ ∃ l ∈ live, ResourceRef.of l = r := by
  rw [mem_plan]
  refine ⟨?_, ?_⟩
  · intro h
    rcases h with ⟨d, _, ha⟩ | ⟨hd, hl, _⟩
    · exact absurd ha.symm (actionFor_ne_delete _ _)
    · refine ⟨lastWithRef_none.mp hd, ?_⟩
      obtain ⟨l, hl⟩ := Option.ne_none_iff_exists'.mp hl
      exact ⟨l, lastWithRef_some hl⟩
  · intro h
    obtain ⟨hd, l, hl, rfl⟩ := h
    refine Or.inr ⟨lastWithRef_none.mpr hd, ?_, rfl⟩
    obtain ⟨l', hl'⟩ := lastWithRef_isSome hl
    dsimp only
    rw [hl']
    exact Option.some_ne_none _

theorem actionFor_eq_apply {d : Manifest} {l : Option Manifest} :
    actionFor d l = .apply ↔ ∀ m, l = some m → manifestBodiesEqual d m = false := by
  cases l with
  | none => simp [actionFor]
  | some l => by_cases h : manifestBodiesEqual d l = true <;> simp [actionFor, h]

/-- **An apply is planned for exactly the desired references whose live body is
missing or different.** -/
theorem apply_mem_plan {desired live : List Manifest} {r : ResourceRef} :
    ⟨r, .apply⟩ ∈ (plan desired live).entries ↔
      ∃ d, lastWithRef desired r = some d
        ∧ ∀ l, lastWithRef live r = some l → manifestBodiesEqual d l = false := by
  rw [mem_plan]
  refine ⟨?_, ?_⟩
  · intro h
    rcases h with ⟨d, hd, ha⟩ | ⟨_, _, ha⟩
    · exact ⟨d, hd, actionFor_eq_apply.mp ha.symm⟩
    · exact absurd ha (by simp)
  · intro h
    obtain ⟨d, hd, hl⟩ := h
    exact Or.inl ⟨d, hd, (actionFor_eq_apply.mpr hl).symm⟩

/-- **For a reference on both sides, a no-op is planned exactly when the bodies are
equal.** -/
theorem noOp_mem_plan {desired live : List Manifest} {r : ResourceRef} {d l : Manifest}
    (hd : lastWithRef desired r = some d) (hl : lastWithRef live r = some l) :
    ⟨r, .noOp⟩ ∈ (plan desired live).entries ↔ manifestBodiesEqual d l = true := by
  rw [mem_plan]
  dsimp only
  rw [hd, hl]
  refine ⟨?_, ?_⟩
  · intro hm
    rcases hm with ⟨d', hd', ha⟩ | ⟨h, _⟩
    · obtain rfl : d = d' := Option.some.inj hd'
      by_contra hne
      simp [actionFor, hne] at ha
    · simp at h
  · intro h
    exact Or.inl ⟨d, rfl, by simp [actionFor, h]⟩

/-! ## When a plan is quiet -/

section

variable [FloatText]

/-- Equal values whose texts the planner's hash tells apart. -/
def HashSplits (v w : Value) : Prop :=
  v.beq w = true ∧ v ≠ w
    ∧ (ManifestBody.toVec v).map fnv1a64 ≠ (ManifestBody.toVec w).map fnv1a64

theorem hash_of_fromValue {v : Value} {b : ManifestBody} (h : ManifestBody.fromValue v = some b) :
    (ManifestBody.toVec v).map fnv1a64 = some b.hash := by
  rw [(ManifestBody.fromValue_spec h).1, b.hash_eq]
  rfl

/-- **Comparing two bodies is comparing their values, unless the hash splits them.** -/
theorem beq_iff_value {v w : Value} {a b : ManifestBody} (hv : v.jsonCompatible = true)
    (hw : w.jsonCompatible = true) (ha : ManifestBody.fromValue v = some a)
    (hb : ManifestBody.fromValue w = some b) :
    (a.beq b = true ↔ v.beq w = true) ↔ ¬ HashSplits v w := by
  rw [ManifestBody.beq_iff_of_compatible hv hw ha hb]
  have hhash : (ManifestBody.toVec v).map fnv1a64 = (ManifestBody.toVec w).map fnv1a64
      ↔ a.hash = b.hash := by
    rw [hash_of_fromValue ha, hash_of_fromValue hb, Option.some.injEq]
  refine ⟨?_, ?_⟩
  · intro h hm
    obtain ⟨hval, _, hne⟩ := hm
    exact hne (hhash.mpr (h.mpr hval).2)
  · intro h
    refine ⟨And.left, fun hval => ⟨hval, ?_⟩⟩
    by_cases heq : v = w
    · -- one value has one text
      rw [heq] at hhash
      exact hhash.mp rfl
    · by_contra hne
      exact h ⟨hval, heq, fun hh => hne (hhash.mp hh)⟩

/--
**When body equality is value equality.**

Two bodies built from JSON-compatible values compare equal exactly when the
values are equal, and a reference on both sides of a plan is left alone exactly
then, if and only if the values are not a pair that the hash splits: equal, but
written differently, with texts of different hash.
-/
theorem body_equality {v w : Value} {a b : ManifestBody} {samePtr : Bool}
    (hv : v.jsonCompatible = true) (hw : w.jsonCompatible = true)
    (ha : ManifestBody.fromValue v = some a) (hb : ManifestBody.fromValue w = some b)
    (hp : samePtr = true → a.bytes = b.bytes) :
    ((ManifestBody.eqTiers samePtr a b = true ↔ v.beq w = true) ↔ ¬ HashSplits v w)
    ∧ ∀ desired live r d l, lastWithRef desired r = some d → lastWithRef live r = some l →
        d.body = a → l.body = b →
        ((⟨r, .noOp⟩ ∈ (plan desired live).entries ↔ v.beq w = true) ↔ ¬ HashSplits v w) := by
  refine ⟨?_, ?_⟩
  · rw [ManifestBody.eqTiers_ptr hp]
    exact beq_iff_value hv hw ha hb
  · intro desired live r d l hd hl hda hlb
    rw [noOp_mem_plan hd hl, manifestBodiesEqual, hda, hlb]
    exact beq_iff_value hv hw ha hb

end

/-- `{a: true, b: null}`. -/
def unsorted : Value := .mapping [(.string "a", .bool true), (.string "b", .null)]

/-- The same mapping, its keys written the other way round. -/
def reordered : Value := .mapping [(.string "b", .null), (.string "a", .bool true)]

/-- A manifest of either, in git and in the cluster. -/
theorem body_equality_unsorted : ∃ a b, @ManifestBody.fromValue .ofBits unsorted = some a
    ∧ @ManifestBody.fromValue .ofBits reordered = some b
    ∧ let d : Manifest := ⟨⟨"", "v1", "ConfigMap"⟩, "flags", none, a⟩
      let l : Manifest := ⟨⟨"", "v1", "ConfigMap"⟩, "flags", none, b⟩
      ((ManifestBody.eqTiers false a b = true ↔ unsorted.beq reordered = true)
        ↔ ¬ @HashSplits .ofBits unsorted reordered)
      ∧ ((⟨ResourceRef.of d, .noOp⟩ ∈ (plan [d] [l]).entries ↔ unsorted.beq reordered = true)
        ↔ ¬ @HashSplits .ofBits unsorted reordered) := by
  refine ⟨_, _, rfl, rfl, ?_⟩
  have h := @body_equality .ofBits unsorted reordered _ _ false (by decide) (by decide) rfl rfl nofun
  exact ⟨h.1, h.2 [_] [_] _ _ _ (lastWithRef_snoc [] _ _) (lastWithRef_snoc [] _ _) rfl rfl⟩

/-- **Key order decides.** Two equal values have bodies that compare different. -/
theorem reordered_body_differs : ∃ a b, @ManifestBody.fromValue .ofBits unsorted = some a
    ∧ @ManifestBody.fromValue .ofBits reordered = some b
    ∧ unsorted.jsonCompatible = true ∧ reordered.jsonCompatible = true
    ∧ unsorted.beq reordered = true ∧ a.beq b = false :=
  ⟨_, _, rfl, rfl, by decide, by decide, by decide, by decide⟩

end SynchrotronCD
