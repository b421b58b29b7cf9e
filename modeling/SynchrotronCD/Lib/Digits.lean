import Mathlib.Algebra.Order.Ring.Int
import Mathlib.Data.Nat.Log

/-!
# Numbers of a fixed width

The last so many decimal digits of a number, the highest first. Texts are ordered by their
first difference; numbers of one width are ordered as texts as they are as numbers
(`padded_lt_padded`).
-/

namespace Lib

/-! ## The order of texts -/

section

variable {α : Type*} [LT α]

/-- Where the beginnings are as long as each other, they are compared first. -/
theorem append_lt_append {xs ys as bs : List α} (h : xs.length = ys.length) :
    xs ++ as < ys ++ bs ↔ xs < ys ∨ xs = ys ∧ as < bs := by
  induction xs generalizing ys with
  | nil =>
      obtain rfl := List.length_eq_zero_iff.mp h.symm
      simp [List.not_lt_nil]
  | cons x xs ih =>
      obtain ⟨y, ys, rfl⟩ := List.exists_cons_of_length_eq_add_one h.symm
      rw [List.cons_append, List.cons_append, List.cons_lt_cons_iff, List.cons_lt_cons_iff,
        ih (Nat.succ.inj h), List.cons.injEq]
      tauto

end

/-- The digits are ordered as the numbers below ten. -/
theorem digitChar_lt : ∀ n < 10, ∀ m < 10, (Nat.digitChar n < Nat.digitChar m ↔ n < m) := by decide

theorem digitChar_inj : ∀ n < 10, ∀ m < 10, (Nat.digitChar n = Nat.digitChar m ↔ n = m) := by decide

/-- A sign comes before the digits. -/
theorem sign_lt_digitChar : ∀ n < 10, '+' < Nat.digitChar n ∧ '-' < Nat.digitChar n
    ∧ Nat.digitChar n ≠ '-' ∧ ¬ Nat.digitChar n < '-' := by decide

/-! ## Digits -/

/-- The last `w` digits. -/
def padded : Nat → Nat → List Char
  | 0, _ => []
  | w + 1, n => Nat.digitChar (n / 10 ^ w % 10) :: padded w n

@[simp] theorem length_padded (w n : Nat) : (padded w n).length = w := by
  induction w with
  | zero => rfl
  | succ w ih => rw [padded, List.length_cons, ih]

/-- Only the last digits are read. -/
theorem mod_pow_succ (w n : Nat) : n % 10 ^ (w + 1) = n / 10 ^ w % 10 * 10 ^ w + n % 10 ^ w := by
  rw [Nat.mod_pow_succ, Nat.mul_comm, Nat.add_comm]

/-- The higher part decides, unless it is the same. -/
theorem mul_add_lt {b q p r s : Nat} (hr : r < b) (hs : s < b) :
    q * b + r < p * b + s ↔ q < p ∨ q = p ∧ r < s := by
  rcases Nat.lt_trichotomy q p with hlt | rfl | hgt
  · have hmul := Nat.mul_le_mul_right b (Nat.succ_le_of_lt hlt)
    rw [Nat.succ_mul] at hmul
    omega
  · omega
  · have hmul := Nat.mul_le_mul_right b (Nat.succ_le_of_lt hgt)
    rw [Nat.succ_mul] at hmul
    omega

theorem padded_inj {w n m : Nat} : padded w n = padded w m ↔ n % 10 ^ w = m % 10 ^ w := by
  induction w with
  | zero => simp [padded, Nat.mod_one]
  | succ w ih =>
      have hn : n % 10 ^ w < 10 ^ w := Nat.mod_lt _ (Nat.pow_pos (by decide))
      have hm : m % 10 ^ w < 10 ^ w := Nat.mod_lt _ (Nat.pow_pos (by decide))
      rw [padded, padded, List.cons.injEq, digitChar_inj _ (Nat.mod_lt _ (by decide)) _
        (Nat.mod_lt _ (by decide)), ih, mod_pow_succ, mod_pow_succ]
      -- as neither is less than the other
      have hlt := @mul_add_lt _ (n / 10 ^ w % 10) (m / 10 ^ w % 10) _ _ hn hm
      have hgt := @mul_add_lt _ (m / 10 ^ w % 10) (n / 10 ^ w % 10) _ _ hm hn
      omega

/-- **Digits are ordered as the numbers.** -/
theorem padded_lt_padded {w n m : Nat} : padded w n < padded w m ↔ n % 10 ^ w < m % 10 ^ w := by
  induction w with
  | zero => simp [padded, Nat.mod_one, List.not_lt_nil]
  | succ w ih =>
      -- the first digit decides, as it does for the numbers
      have hn : n % 10 ^ w < 10 ^ w := Nat.mod_lt _ (Nat.pow_pos (by decide))
      have hm : m % 10 ^ w < 10 ^ w := Nat.mod_lt _ (Nat.pow_pos (by decide))
      rw [padded, padded, List.cons_lt_cons_iff, digitChar_lt _ (Nat.mod_lt _ (by decide)) _
        (Nat.mod_lt _ (by decide)), digitChar_inj _ (Nat.mod_lt _ (by decide)) _
        (Nat.mod_lt _ (by decide)), ih, mod_pow_succ, mod_pow_succ, mul_add_lt hn hm]

theorem padded_lt_iff {w n m : Nat} (hn : n < 10 ^ w) (hm : m < 10 ^ w) :
    padded w n < padded w m ↔ n < m := by
  rw [padded_lt_padded, Nat.mod_eq_of_lt hn, Nat.mod_eq_of_lt hm]

theorem padded_eq_iff {w n m : Nat} (hn : n < 10 ^ w) (hm : m < 10 ^ w) :
    padded w n = padded w m ↔ n = m := by
  rw [padded_inj, Nat.mod_eq_of_lt hn, Nat.mod_eq_of_lt hm]

/-- The first digits are those of what is left without the last. -/
theorem padded_add (v w n : Nat) : padded (v + w) n = padded v (n / 10 ^ w) ++ padded w n := by
  induction v with
  | zero => rw [Nat.zero_add]; rfl
  | succ v ih =>
      rw [Nat.succ_add, padded, padded, ih, Nat.div_div_eq_div_mul, ← Nat.pow_add, Nat.add_comm w v]
      rfl

end Lib
