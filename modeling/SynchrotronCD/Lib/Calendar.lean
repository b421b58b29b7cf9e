import Mathlib.Algebra.BigOperators.Group.List.Basic
import Mathlib.Algebra.Order.Ring.Int

/-!
# The calendar

The Gregorian calendar, carried on to all years before and after. Days are counted from the
1st of January of the year 0; the year of a day is estimated from the length of four hundred
years and set right by one.

Dates ascend with the days they stand for (`Date.before_iff`).
-/

namespace Lib

/-! ## Years -/

def isLeapYear (y : Int) : Bool := y % 4 = 0 ∧ (y % 100 ≠ 0 ∨ y % 400 = 0)

/-- The first day of a year. -/
def yearStart (y : Int) : Int := 365 * y + (y + 3) / 4 - (y + 99) / 100 + (y + 399) / 400

def monthLengths (y : Int) : List Nat :=
  [31, if isLeapYear y then 29 else 28, 31, 30, 31, 30, 31, 31, 30, 31, 30, 31]

theorem yearStart_succ (y : Int) : yearStart (y + 1) = yearStart y + (monthLengths y).sum := by
  unfold yearStart monthLengths isLeapYear
  simp only [List.sum_cons, List.sum_nil]
  split
  · rename_i hleap
    simp only [decide_eq_true_eq] at hleap
    omega
  · rename_i hleap
    simp only [decide_eq_true_eq] at hleap
    omega

theorem yearStart_strictMono {y z : Int} (h : y < z) : yearStart y < yearStart z := by
  unfold yearStart
  omega

/-- Four hundred years are 146097 days. -/
theorem yearStart_bounds (y : Int) :
    146097 * y - 396 ≤ 400 * yearStart y ∧ 400 * yearStart y ≤ 146097 * y + 699 := by
  unfold yearStart
  omega

/-- The year of a day. -/
def yearOf (d : Int) : Int :=
  let y := 400 * d / 146097
  if d < yearStart y then y - 1 else if d < yearStart (y + 1) then y else y + 1

theorem yearOf_spec (d : Int) : yearStart (yearOf d) ≤ d ∧ d < yearStart (yearOf d + 1) := by
  unfold yearOf
  -- the estimate is off by one at most
  generalize hy : 400 * d / 146097 = y
  dsimp only
  split
  · have hbefore := yearStart_bounds (y - 1)
    rw [Int.sub_add_cancel]
    omega
  · split
    · omega
    · have hafter := yearStart_bounds (y + 1 + 1)
      omega

/-- A year ends before a later one begins. -/
theorem yearStart_le {y z : Int} (h : y < z) : yearStart (y + 1) ≤ yearStart z := by
  rcases Int.lt_or_eq_of_le (Int.add_one_le_of_lt h) with hlt | rfl
  · exact Int.le_of_lt (yearStart_strictMono hlt)
  · exact Int.le_refl _

theorem yearOf_mono {d e : Int} (h : d ≤ e) : yearOf d ≤ yearOf e := by
  by_contra hlt
  have hstart := yearStart_le (Int.not_le.mp hlt)
  have hd := (yearOf_spec d).1
  have he := (yearOf_spec e).2
  omega

/-! ## Months -/

/-- In which of some consecutive stretches a position lies, and where in it. -/
def locate : List Nat → Nat → Nat × Nat
  | [], n => (0, n)
  | l :: ls, n =>
    if n < l then (0, n)
    else
      let (i, k) := locate ls (n - l)
      (i + 1, k)

theorem locate_spec {ls : List Nat} {n : Nat} (h : n < ls.sum) :
    ∃ l, ls[(locate ls n).1]? = some l ∧ (locate ls n).2 < l := by
  induction ls generalizing n with
  | nil => exact absurd h (Nat.not_lt_zero n)
  | cons l ls ih =>
      rw [List.sum_cons] at h
      rw [locate]
      split
      · exact ⟨l, rfl, ‹_›⟩
      · exact ih (by omega)

/-- A later position lies in a later stretch, or later in the same. -/
theorem locate_lt {ls : List Nat} {n m : Nat} (h : n < m) : (locate ls n).1 < (locate ls m).1
    ∨ (locate ls n).1 = (locate ls m).1 ∧ (locate ls n).2 < (locate ls m).2 := by
  induction ls generalizing n m with
  | nil => exact Or.inr ⟨rfl, h⟩
  | cons l ls ih =>
      rw [locate, locate]
      -- both in the first stretch, or one, or neither
      by_cases hn : n < l
      · by_cases hm : m < l
        · rw [if_pos hn, if_pos hm]
          exact Or.inr ⟨rfl, h⟩
        · rw [if_pos hn, if_neg hm]
          exact Or.inl (Nat.succ_pos _)
      · rw [if_neg hn, if_neg (by omega)]
        rcases ih (show n - l < m - l by omega) with hlt | ⟨heq, hlt⟩
        · exact Or.inl (Nat.succ_lt_succ hlt)
        · exact Or.inr ⟨congrArg (· + 1) heq, hlt⟩

/-! ## Dates -/

structure Date where
  year : Int
  month : Nat
  day : Nat
  valid : 1 ≤ month ∧ 1 ≤ day ∧ ∃ l, (monthLengths year)[month - 1]? = some l ∧ day ≤ l

namespace Date

/-- The date of a day. -/
def ofDay (d : Int) : Date where
  year := yearOf d
  month := (locate (monthLengths (yearOf d)) (d - yearStart (yearOf d)).toNat).1 + 1
  day := (locate (monthLengths (yearOf d)) (d - yearStart (yearOf d)).toNat).2 + 1
  valid := by
    have hyear := yearOf_spec d
    rw [yearStart_succ] at hyear
    exact ⟨Nat.succ_pos _, Nat.succ_pos _, locate_spec (by omega)⟩

/-- An earlier date. -/
def Before (a b : Date) : Prop :=
  a.year < b.year ∨ a.year = b.year ∧ (a.month < b.month ∨ a.month = b.month ∧ a.day < b.day)

theorem month_le (a : Date) : a.month ≤ 12 := by
  obtain ⟨hmonth, -, l, hl, -⟩ := a.valid
  have hlt := (List.getElem?_eq_some_iff.mp hl).1
  rw [show (monthLengths a.year).length = 12 from rfl] at hlt
  omega

theorem day_le (a : Date) : a.day ≤ 31 := by
  obtain ⟨-, -, l, hl, hday⟩ := a.valid
  have hlength : ∀ l ∈ monthLengths a.year, l ≤ 31 := by
    unfold monthLengths
    cases isLeapYear a.year <;> decide
  exact Nat.le_trans hday (hlength l (List.mem_of_getElem? hl))

theorem ofDay_before {d e : Int} (h : d < e) : (ofDay d).Before (ofDay e) := by
  rcases Int.lt_or_eq_of_le (yearOf_mono (Int.le_of_lt h)) with hlt | heq
  · exact Or.inl hlt
  · have hd := (yearOf_spec d).1
    rw [heq] at hd
    have hlocate := @locate_lt (monthLengths (yearOf e)) _ _
      (show (d - yearStart (yearOf e)).toNat < (e - yearStart (yearOf e)).toNat by omega)
    refine Or.inr ⟨heq, ?_⟩
    unfold ofDay
    dsimp only
    rw [heq]
    omega

/-- **Dates ascend with the days.** -/
theorem before_iff {d e : Int} : (ofDay d).Before (ofDay e) ↔ d < e := by
  refine ⟨fun h => ?_, ofDay_before⟩
  by_contra hnot
  rcases Int.lt_or_eq_of_le (Int.not_lt.mp hnot) with hlt | rfl
  · have := ofDay_before hlt
    unfold Before at h this
    omega
  · unfold Before at h
    omega

end Date

end Lib
