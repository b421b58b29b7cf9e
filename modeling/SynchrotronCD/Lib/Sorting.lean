import Mathlib.Data.List.Pairwise
import Mathlib.Data.List.Sort

/-!
# Lists sorted by a comparison

What `sort_by` gives, for a comparison that is a total preorder: the elements in
ascending order, and in strictly ascending order where no two of them compare equal.
A strictly ascending list is determined by its elements, so sorting forgets the
order the elements came in.
-/

namespace Lib

open Std

variable {α κ : Type} {cmp : α → α → Ordering}

/-- The order of a comparison, for `List.insertionSort`. -/
abbrev LeBy (cmp : α → α → Ordering) (a b : α) : Prop := (cmp a b).isLE = true

/-- The strict order of a comparison. -/
abbrev LtBy (cmp : α → α → Ordering) (a b : α) : Prop := cmp a b = .lt

/-- Two elements of a list in which every later one is related to every earlier one. -/
theorem related_of_mem {R : α → α → Prop} {xs : List α} (h : xs.Pairwise R) {a b : α}
    (ha : a ∈ xs) (hb : b ∈ xs) (hne : a ≠ b) : R a b ∨ R b a := by
  have : Std.Symm fun a b => R a b ∨ R b a := ⟨fun _ _ => Or.symm⟩
  exact (h.imp Or.inl : xs.Pairwise fun a b => R a b ∨ R b a).forall ha hb hne

/-- **The last so many elements** of an ascending list are those with fewer above them. -/
theorem filter_above {R : α → α → Prop} [DecidableRel R] [Std.Asymm R] {xs : List α}
    (h : xs.Pairwise R) (n : Nat) :
    xs.filter (fun a => (xs.filter (R a)).length < n) = xs.drop (xs.length - n) := by
  induction xs with
  | nil => exact List.drop_nil.symm
  | cons x xs ih =>
      obtain ⟨hx, hxs⟩ := List.pairwise_cons.mp h
      -- all others are above the first, and it is above none of them
      have hfirst : (x :: xs).filter (R x) = xs := by
        rw [List.filter_cons_of_neg (by simpa using irrefl_of R x), List.filter_eq_self]
        intro a ha
        exact decide_eq_true (hx a ha)
      have hrest : ∀ a ∈ xs, (x :: xs).filter (R a) = xs.filter (R a) := by
        intro a ha
        exact List.filter_cons_of_neg (by simpa using Std.Asymm.asymm x a (hx a ha))
      have htail : xs.filter (fun a => ((x :: xs).filter (R a)).length < n)
          = xs.drop (xs.length - n) := by
        rw [← ih hxs]
        exact List.filter_congr fun a ha => by rw [hrest a ha]
      rw [List.filter_cons, hfirst, htail, List.length_cons]
      by_cases hlt : xs.length < n
      · rw [if_pos (decide_eq_true hlt), Nat.sub_eq_zero_of_le (Nat.le_of_lt hlt),
          Nat.sub_eq_zero_of_le hlt]
        rfl
      · rw [if_neg (by simpa using hlt), Nat.succ_sub (Nat.le_of_not_lt hlt), List.drop_succ_cons]

/-- Elements are compared by a key of theirs. -/
theorem transCmp_on (f : α → κ) {cmp : κ → κ → Ordering} [TransCmp cmp] :
    TransCmp fun a b => cmp (f a) (f b) where
  eq_swap := OrientedCmp.eq_swap
  isLE_trans := TransCmp.isLE_trans

/-- The opposite comparison. -/
theorem transCmp_flip [TransCmp cmp] : TransCmp fun a b => cmp b a where
  eq_swap := OrientedCmp.eq_swap
  isLE_trans hab hbc := TransCmp.isLE_trans hbc hab

section

variable [TransCmp cmp]

instance : Std.Total (LeBy cmp) where
  total a b := by
    unfold LeBy
    rw [@OrientedCmp.eq_swap _ cmp _ b a]
    cases cmp a b <;> simp

instance : IsTrans α (LeBy cmp) where
  trans _ _ _ := TransCmp.isLE_trans

instance : Std.Irrefl (LtBy cmp) where
  irrefl a := by simp [LtBy, ReflCmp.compare_self]

instance : Std.Antisymm (LtBy cmp) where
  antisymm a b hab hba := by
    have hgt : cmp a b = .gt := OrientedCmp.gt_of_lt hba
    simp [LtBy, hgt] at hab

/-- No later element of a sorted list is smaller. -/
theorem pairwise_sort (xs : List α) :
    (xs.insertionSort (LeBy cmp)).Pairwise (LeBy cmp) :=
  xs.pairwise_insertionSort _

/-- If no two elements compare equal, every later one is greater. -/
theorem pairwise_lt_sort {xs : List α} (h : xs.Pairwise fun a b => cmp a b ≠ .eq) :
    (xs.insertionSort (LeBy cmp)).Pairwise (LtBy cmp) := by
  have hne : (xs.insertionSort (LeBy cmp)).Pairwise fun a b => cmp a b ≠ .eq := by
    have hsymm : ∀ {a b : α}, cmp a b ≠ .eq → cmp b a ≠ .eq :=
      fun hab hba => hab (OrientedCmp.eq_symm hba)
    exact (xs.perm_insertionSort _).symm.pairwise h hsymm
  refine (pairwise_sort xs).imp₂ (fun a b hle hne => ?_) hne
  exact Ordering.isLE_iff_eq_lt_or_eq_eq.mp hle |>.resolve_right hne

/-- **A strictly ascending list is determined by what stands in it.** -/
theorem eq_of_mem_iff {xs ys : List α} (hx : xs.Pairwise (LtBy cmp))
    (hy : ys.Pairwise (LtBy cmp)) (h : ∀ a, a ∈ xs ↔ a ∈ ys) : xs = ys :=
  hx.eq_of_mem_iff hy h

end

end Lib
