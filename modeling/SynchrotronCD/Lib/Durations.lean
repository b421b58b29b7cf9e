import Mathlib.Algebra.Order.Ring.Int

/-!
# Durations and times

A duration is a whole number of nanoseconds, with the seconds in 64 bits; a system time
is a number of nanoseconds from the epoch, with the seconds in 64 bits and a sign. The
operations that leave these ranges say so, or stay at the end of the range. An instant
is a reading of the monotonic clock, with the same range.

A wait that is doubled each time up to a cap stays below the cap and never falls, if it
starts there (`doubled_le`, `doubled_le_succ`).
-/

namespace Lib

def NANOS_PER_SEC : Nat := 1000000000

/-- `std::time::Duration`. -/
structure Duration where
  nanos : Nat
  bound : nanos < 2 ^ 64 * NANOS_PER_SEC
deriving DecidableEq, Repr

namespace Duration

def ZERO : Duration := ⟨0, by decide⟩

def MAX : Duration := ⟨2 ^ 64 * NANOS_PER_SEC - 1, by decide⟩

def fromSecs (s : UInt64) : Duration :=
  ⟨s.toNat * NANOS_PER_SEC, Nat.mul_lt_mul_of_pos_right s.toNat_lt (by decide)⟩

instance : LE Duration := ⟨fun a b => a.nanos ≤ b.nanos⟩

instance (a b : Duration) : Decidable (a ≤ b) := inferInstanceAs (Decidable (a.nanos ≤ b.nanos))

theorem le_def {a b : Duration} : a ≤ b ↔ a.nanos ≤ b.nanos := Iff.rfl

instance : LT Duration := ⟨fun a b => a.nanos < b.nanos⟩

instance (a b : Duration) : Decidable (a < b) := inferInstanceAs (Decidable (a.nanos < b.nanos))

theorem not_lt {a b : Duration} : ¬ a < b ↔ b ≤ a := Nat.not_lt

theorem lt_of_le_of_lt {a b c : Duration} (h : a ≤ b) (h' : b < c) : a < c := Nat.lt_of_le_of_lt h h'

theorem ext_nanos {a b : Duration} (h : a.nanos = b.nanos) : a = b := by
  cases a
  cases b
  cases h
  rfl

def isZero (d : Duration) : Bool := d.nanos == 0

theorem nanos_of_isZero {d : Duration} (h : d.isZero = true) : d.nanos = 0 := eq_of_beq h

instance : Min Duration := ⟨fun a b => if a ≤ b then a else b⟩

/-- `*` panics where this is `none`. -/
def checkedMul (d : Duration) (k : Nat) : Option Duration :=
  if h : d.nanos * k < 2 ^ 64 * NANOS_PER_SEC then some ⟨d.nanos * k, h⟩ else none

/-- `/` panics where this is `none`. -/
def checkedDiv (d : Duration) (k : Nat) : Option Duration :=
  if k = 0 then none else some ⟨d.nanos / k, Nat.lt_of_le_of_lt (Nat.div_le_self _ _) d.bound⟩

def saturatingMul (d : Duration) (k : Nat) : Duration := (d.checkedMul k).getD MAX

theorem nanos_le_max (d : Duration) : d.nanos ≤ MAX.nanos := Nat.le_sub_one_of_lt d.bound

@[simp] theorem nanos_min (a b : Duration) : (min a b).nanos = min a.nanos b.nanos := by
  show (if a ≤ b then a else b).nanos = _
  split
  · rename_i h
    rw [le_def] at h
    exact (Nat.min_eq_left h).symm
  · rename_i h
    rw [le_def] at h
    exact (Nat.min_eq_right (by omega)).symm

theorem checkedMul_eq_some {d e : Duration} {k : Nat} :
    d.checkedMul k = some e ↔ e.nanos = d.nanos * k := by
  unfold checkedMul
  split
  · rw [Option.some.injEq]
    exact ⟨fun h => h ▸ rfl, fun h => ext_nanos h.symm⟩
  · rename_i hover
    refine ⟨nofun, fun h => absurd ?_ hover⟩
    rw [← h]
    exact e.bound

theorem checkedMul_eq_none {d : Duration} {k : Nat} :
    d.checkedMul k = none ↔ MAX.nanos < d.nanos * k := by
  unfold checkedMul
  split
  · rename_i h
    refine ⟨nofun, fun hlt => ?_⟩
    have : MAX.nanos = 2 ^ 64 * NANOS_PER_SEC - 1 := rfl
    omega
  · rename_i h
    refine ⟨fun _ => ?_, fun _ => rfl⟩
    have : MAX.nanos = 2 ^ 64 * NANOS_PER_SEC - 1 := rfl
    have : 0 < 2 ^ 64 * NANOS_PER_SEC := by decide
    omega

theorem nanos_saturatingMul (d : Duration) (k : Nat) :
    (d.saturatingMul k).nanos = min (d.nanos * k) MAX.nanos := by
  unfold saturatingMul
  cases h : d.checkedMul k with
  | none => exact (Nat.min_eq_right (Nat.le_of_lt (checkedMul_eq_none.mp h))).symm
  | some e =>
      have he := checkedMul_eq_some.mp h
      exact he.trans (Nat.min_eq_left (he ▸ nanos_le_max e)).symm

end Duration

/-! ## Doubling -/

/-- A quantity that is doubled `n` times, each time up to a cap. -/
def doubled (initial cap : Nat) : Nat → Nat
  | 0 => initial
  | n + 1 => min (doubled initial cap n * 2) cap

theorem doubled_le {initial cap : Nat} (h : initial ≤ cap) (n : Nat) : doubled initial cap n ≤ cap := by
  cases n with
  | zero => exact h
  | succ n => exact Nat.min_le_right _ _

theorem doubled_le_succ {initial cap : Nat} (h : initial ≤ cap) (n : Nat) :
    doubled initial cap n ≤ doubled initial cap (n + 1) :=
  Nat.le_min.mpr ⟨by omega, doubled_le h n⟩

theorem doubled_mono {initial cap : Nat} (h : initial ≤ cap) {m n : Nat} (hmn : m ≤ n) :
    doubled initial cap m ≤ doubled initial cap n := by
  induction hmn with
  | refl => exact Nat.le_refl _
  | step _ ih => exact Nat.le_trans ih (doubled_le_succ h _)

/-- Nothing doubled is nothing. -/
theorem doubled_zero (cap n : Nat) : doubled 0 cap n = 0 := by
  induction n with
  | zero => rfl
  | succ n ih => rw [doubled, ih, Nat.zero_mul, Nat.zero_min]

/-- What is doubled under the cap. -/
theorem doubled_eq {initial cap : Nat} (h : initial ≤ cap) (n : Nat) :
    doubled initial cap n = min (initial * 2 ^ n) cap := by
  induction n with
  | zero =>
      rw [Nat.pow_zero, Nat.mul_one]
      exact (Nat.min_eq_left h).symm
  | succ n ih =>
      rw [doubled, ih, Nat.pow_succ, ← Nat.mul_assoc]
      omega

/-! ## Times -/

/-- `std::time::SystemTime`, by its nanoseconds from the epoch. -/
structure SystemTime where
  nanos : Int
  lower : -(2 ^ 63 * NANOS_PER_SEC) ≤ nanos
  upper : nanos < 2 ^ 63 * NANOS_PER_SEC
deriving DecidableEq, Repr

namespace SystemTime

instance : LT SystemTime := ⟨fun a b => a.nanos < b.nanos⟩

instance (a b : SystemTime) : Decidable (a < b) := inferInstanceAs (Decidable (a.nanos < b.nanos))

/-- The time of so many nanoseconds, if it is in the range. -/
def ofNanos (n : Int) : Option SystemTime :=
  if h : -(2 ^ 63 * NANOS_PER_SEC) ≤ n ∧ n < 2 ^ 63 * NANOS_PER_SEC then some ⟨n, h.1, h.2⟩ else none

/-- `+` panics where this is `none`. -/
def checkedAdd (t : SystemTime) (d : Duration) : Option SystemTime := ofNanos (t.nanos + d.nanos)

def checkedSub (t : SystemTime) (d : Duration) : Option SystemTime := ofNanos (t.nanos - d.nanos)

/-- A sum leaves the range at its upper end only. -/
theorem checkedAdd_eq_none {t : SystemTime} {d : Duration} :
    t.checkedAdd d = none ↔ 2 ^ 63 * NANOS_PER_SEC ≤ t.nanos + d.nanos := by
  unfold checkedAdd ofNanos
  have hlower := t.lower
  split
  · rename_i h
    exact ⟨nofun, fun hle => absurd h.2 (by omega)⟩
  · rename_i h
    exact ⟨fun _ => by omega, fun _ => rfl⟩

end SystemTime

/-- `std::time::Instant`. -/
structure Instant where
  nanos : Int
  lower : -(2 ^ 63 * NANOS_PER_SEC) ≤ nanos
  upper : nanos < 2 ^ 63 * NANOS_PER_SEC
deriving DecidableEq, Repr

namespace Instant

instance : LE Instant := ⟨fun a b => a.nanos ≤ b.nanos⟩

instance (a b : Instant) : Decidable (a ≤ b) := inferInstanceAs (Decidable (a.nanos ≤ b.nanos))

theorem le_def {a b : Instant} : a ≤ b ↔ a.nanos ≤ b.nanos := Iff.rfl

theorem le_refl (a : Instant) : a ≤ a := Int.le_refl _

theorem le_trans {a b c : Instant} (h : a ≤ b) (h' : b ≤ c) : a ≤ c := Int.le_trans h h'

/-- The time since an instant, none if it is later. -/
def durationSince (t earlier : Instant) : Duration :=
  ⟨(t.nanos - earlier.nanos).toNat, by
    have hupper := t.upper
    have hlower := earlier.lower
    have : (NANOS_PER_SEC : Int) = 1000000000 := rfl
    have : NANOS_PER_SEC = 1000000000 := rfl
    omega⟩

theorem durationSince_mono {a b c d : Instant} (h : a ≤ b) (h' : d ≤ c) :
    a.durationSince c ≤ b.durationSince d := by
  rw [Duration.le_def, durationSince, durationSince]
  rw [le_def] at h h'
  dsimp only
  omega

end Instant

end Lib
