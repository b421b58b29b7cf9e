import SynchrotronCD.Db.Tables
import SynchrotronCD.Lib.Calendar
import SynchrotronCD.Lib.Digits

/-!
# Pruning the sync history

`prune_sync_history` deletes the rows whose `started_at` is less than
`datetime('now', '-N days')`. Both are texts: the one as `to_rfc3339` writes it, with a `T`
before the time of day, the other with a space, which is less.

So the rows of the cutoff's own day are kept, however early they were started; and years of
more than four digits, or before the year 0, begin with a sign (`prunesByAge_iff`).
-/

namespace SynchrotronCD.Db.HistoryPruning

open Lib

/-! ## Timestamps as text -/

/-- Nanoseconds of a day. -/
def nanosPerDay : Int := 86400000000000

/-- The day of the epoch, 1970-01-01. -/
def epochDay : Int := 719528

/-- The date of an instant, given in nanoseconds since the epoch. -/
def dateOf (t : Int) : Date := Date.ofDay (t / nanosPerDay + epochDay)

def secondOfDay (t : Int) : Nat := (t % nanosPerDay / 1000000000).toNat

/-- `-MM-DD`. -/
def monthDay (date : Date) : List Char := '-' :: padded 2 date.month ++ '-' :: padded 2 date.day

/-- `HH:MM:SS`. -/
def clock (second : Nat) : List Char :=
  padded 2 (second / 3600) ++ ':' :: padded 2 (second / 60 % 60) ++ ':' :: padded 2 (second % 60)

/-- The fraction of a second, in three, six or nine digits if there is one. -/
def fraction (nanos : Nat) : List Char :=
  if nanos = 0 then []
  else if nanos % 1000000 = 0 then '.' :: padded 3 (nanos / 1000000)
  else if nanos % 1000 = 0 then '.' :: padded 6 (nanos / 1000)
  else '.' :: padded 9 nanos

/-- How many digits a year has, padded to four. -/
def yearWidth (n : Nat) : Nat := max 4 (Nat.log 10 n + 1)

/-- A year out of the range of four digits is written with its sign. -/
def rfc3339Year (year : Int) : List Char :=
  if 0 ≤ year ∧ year ≤ 9999 then padded 4 year.natAbs
  else (if year < 0 then '-' else '+') :: padded (yearWidth year.natAbs) year.natAbs

/-- `DateTime::<Utc>::to_rfc3339`. -/
def toRfc3339 (t : Int) : String :=
  String.ofList (rfc3339Year (dateOf t).year ++ monthDay (dateOf t) ++ 'T' :: clock (secondOfDay t)
    ++ fraction (t % 1000000000).toNat ++ ['+', '0', '0', ':', '0', '0'])

def sqliteYear (year : Int) : List Char :=
  if year < 0 then '-' :: padded 4 year.natAbs else padded 4 year.natAbs

/-- The text of SQLite's `datetime`. -/
def sqliteDatetime (t : Int) : String :=
  String.ofList (sqliteYear (dateOf t).year ++ monthDay (dateOf t) ++ ' ' :: clock (secondOfDay t))

/-! ## Pruning -/

/-- Milliseconds from the start of the Julian days to the epoch. -/
def julianEpoch : Int := 210866760000000

/-- Milliseconds since the epoch, so many days before now. -/
def daysBefore (now : Int) (days : UInt32) : Int := now - days.toNat * 86400000

/-- `datetime('now', '-N days')` is a date, of the years -4713 to 9999. -/
def HasCutoff (now : Int) (days : UInt32) : Prop :=
  0 < now + julianEpoch ∧ days.toNat < 5373485 ∧ 0 ≤ daysBefore now days + julianEpoch
    ∧ daysBefore now days + julianEpoch ≤ 464269060799999

instance (now : Int) (days : UInt32) : Decidable (HasCutoff now days) :=
  inferInstanceAs (Decidable (_ ∧ _ ∧ _ ∧ _))

/-- The same in nanoseconds. -/
def cutoff (now : Int) (days : UInt32) : Int := daysBefore now days * 1000000

/-- `datetime('now', '-N days')`, at a time in milliseconds; `NULL` if it is no date. -/
def datetimeNow (now : Int) (days : UInt32) : Option String :=
  if HasCutoff now days then some (sqliteDatetime (cutoff now days)) else none

/-- `started_at < datetime('now', ?1)`, which is not true of `NULL`. -/
def Expired (now : Int) (days : UInt32) (startedAt : Int) : Prop :=
  ∃ text, datetimeNow now days = some text ∧ toRfc3339 startedAt < text

instance (now : Int) (days : UInt32) (startedAt : Int) : Decidable (Expired now days startedAt) :=
  match h : datetimeNow now days with
  | none => isFalse fun ⟨_, htext, _⟩ => by cases h.symm.trans htext
  | some text => decidable_of_iff (toRfc3339 startedAt < text) <| by
      unfold Expired
      simp [h]

section

variable {ρ : Type} (startedAt : ρ → Int)

/-- Delete sync history older than `retention_days`: what is left, and how many rows are not. -/
def pruneSyncHistory (rows : List ρ) (now : Int) (retentionDays : UInt32) : List ρ × Nat :=
  (rows.filter fun r => ¬ Expired now retentionDays (startedAt r),
    (rows.filter fun r => Expired now retentionDays (startedAt r)).length)

/-- **What is pruned are the rows that were started earlier.** -/
def PrunesByAge (rows : List ρ) (now : Int) (retentionDays : UInt32) : Prop :=
  pruneSyncHistory startedAt rows now retentionDays
    = (rows.filter fun r => ¬ startedAt r < cutoff now retentionDays,
      (rows.filter fun r => startedAt r < cutoff now retentionDays).length)

end

/-- The history of a database, pruned. -/
def pruneDatabase (db : Database) (now : Int) (retentionDays : UInt32) : Database × Nat :=
  let (rows, affected) := pruneSyncHistory (fun r => (r.startedAt : Int)) db.syncHistory now
    retentionDays
  ({ db with syncHistory := rows }, affected)

/-! ## The order of the texts -/

theorem monthDay_lt {a b : Date} : monthDay a < monthDay b
    ↔ a.month < b.month ∨ a.month = b.month ∧ a.day < b.day := by
  have hpadded : ∀ {n m : Nat}, n ≤ 31 → m ≤ 31 →
      (padded 2 n < padded 2 m ↔ n < m) ∧ (padded 2 n = padded 2 m ↔ n = m) := by
    intro n m hn hm
    exact ⟨padded_lt_iff (by omega) (by omega), padded_eq_iff (by omega) (by omega)⟩
  have hmonths := @hpadded a.month b.month (by have := a.month_le; omega) (by have := b.month_le; omega)
  have hdays := hpadded a.day_le b.day_le
  unfold monthDay
  rw [append_lt_append (by simp), List.cons_lt_cons_iff, List.cons_lt_cons_iff, List.cons.injEq,
    hmonths.1, hmonths.2, hdays.1]
  simp

/-- The date decides, and not what follows it: a space is less than a `T`. -/
theorem dated_lt {xs ys : List Char} (h : xs.length = ys.length) (a b : Date) (us vs : List Char) :
    xs ++ (monthDay a ++ 'T' :: us) < ys ++ (monthDay b ++ ' ' :: vs)
      ↔ xs < ys ∨ xs = ys ∧ (a.month < b.month ∨ a.month = b.month ∧ a.day < b.day) := by
  have hspace : ¬ 'T' :: us < ' ' :: vs := by
    rw [List.cons_lt_cons_iff]
    rintro (hlt | ⟨heq, -⟩)
    · exact absurd hlt (by decide)
    · exact absurd heq (by decide)
  rw [append_lt_append h, append_lt_append (by simp [monthDay]), monthDay_lt]
  tauto

theorem ofList_lt {cs ds : List Char} : String.ofList cs < String.ofList ds ↔ cs < ds := by
  show (String.ofList cs).toList < (String.ofList ds).toList ↔ _
  rw [String.toList_ofList, String.toList_ofList]

theorem toRfc3339_eq (t : Int) : ∃ us, toRfc3339 t
    = String.ofList (rfc3339Year (dateOf t).year ++ (monthDay (dateOf t) ++ 'T' :: us)) := by
  unfold toRfc3339
  exact ⟨clock (secondOfDay t) ++ (fraction (t % 1000000000).toNat ++ ['+', '0', '0', ':', '0', '0']),
    by simp [List.append_assoc]⟩

theorem sqliteDatetime_eq (t : Int) : ∃ vs, sqliteDatetime t
    = String.ofList (sqliteYear (dateOf t).year ++ (monthDay (dateOf t) ++ ' ' :: vs)) := by
  unfold sqliteDatetime
  exact ⟨clock (secondOfDay t), by simp [List.append_assoc]⟩

/-- The first four digits. -/
def leadingFour (n : Nat) : Nat := n / 10 ^ (Nat.log 10 n - 3)

/-- A longer year begins with four digits, and goes on with another. -/
theorem padded_long {n : Nat} (h : 10000 ≤ n) : ∃ k d, d < 10 ∧ leadingFour n < 10000
    ∧ padded (yearWidth n) n = padded 4 (leadingFour n) ++ Nat.digitChar d :: padded k n := by
  have hlog : 4 ≤ Nat.log 10 n := Nat.le_log_of_pow_le (by decide) h
  obtain ⟨k, hk⟩ : ∃ k, Nat.log 10 n = 4 + k := ⟨_, (Nat.add_sub_of_le hlog).symm⟩
  have hbound : n < 10 ^ (4 + k + 1) := by
    rw [← hk]
    exact Nat.lt_pow_succ_log_self (by decide) n
  have hwidth : yearWidth n = 4 + (k + 1) := by
    unfold yearWidth
    omega
  have hlead : leadingFour n = n / 10 ^ (k + 1) := by
    rw [leadingFour, hk]
    congr 2
    omega
  refine ⟨k, n / 10 ^ k % 10, Nat.mod_lt _ (by decide), ?_, ?_⟩
  · rw [hlead]
    refine Nat.div_lt_of_lt_mul ?_
    rwa [← show 10 ^ 4 = 10000 from rfl, ← Nat.pow_add, show k + 1 + 4 = 4 + k + 1 by omega]
  · rw [hwidth, padded_add, hlead]
    rfl

/-- Which dates come before which, as texts. -/
def TextBefore (a b : Date) : Prop :=
  if 9999 < a.year then True
  else if a.year < 0 ∧ b.year < 0 ∧ a.year ≠ b.year then
    if a.year ≤ -10000 then leadingFour a.year.natAbs < b.year.natAbs else b.year < a.year
  else a.Before b

section

variable {a b : Date} {us vs : List Char}

/-- A year of four digits, with no sign. -/
theorem lt_of_unsigned (h : 0 ≤ a.year ∧ a.year ≤ 9999) (hb : b.year.natAbs < 10 ^ 4) :
    rfc3339Year a.year ++ (monthDay a ++ 'T' :: us) < sqliteYear b.year ++ (monthDay b ++ ' ' :: vs)
      ↔ a.Before b := by
  have ha : a.year.natAbs < 10 ^ 4 := by omega
  unfold Date.Before
  rw [rfc3339Year, if_pos h, sqliteYear]
  split
  · have hsign := sign_lt_digitChar _ (Nat.mod_lt (a.year.natAbs / 10 ^ 3) (by decide))
    rw [padded, List.cons_append, List.cons_append, List.cons_lt_cons_iff]
    have hnot : ¬ a.year < b.year ∧ a.year ≠ b.year := by omega
    simp only [hsign.2.2.1, hsign.2.2.2, hnot, false_and, or_self]
  · rw [dated_lt (by simp), padded_lt_iff ha hb, padded_eq_iff ha hb]
    omega

/-- Of a year of more digits, the first four are compared; the next is greater than a dash. -/
theorem padded_long_lt {n m : Nat} (h : 10000 ≤ n) (hm : m < 10 ^ 4) :
    padded (yearWidth n) n ++ (monthDay a ++ 'T' :: us) < padded 4 m ++ (monthDay b ++ ' ' :: vs)
      ↔ leadingFour n < m := by
  obtain ⟨k, d, hd, hlead, heq⟩ := padded_long h
  have hsign := sign_lt_digitChar d hd
  have hdash : ¬ Nat.digitChar d :: padded k n ++ (monthDay a ++ 'T' :: us)
      < monthDay b ++ ' ' :: vs := by
    unfold monthDay
    simp only [List.cons_append, List.cons_lt_cons_iff, hsign.2.2.1, hsign.2.2.2, false_and,
      or_self, not_false_eq_true]
  rw [heq, List.append_assoc, append_lt_append (by simp), padded_lt_iff hlead hm]
  simp only [hdash, and_false, or_false]

theorem yearWidth_of_lt {n : Nat} (h : n < 10 ^ 4) : yearWidth n = 4 := by
  have hlog : Nat.log 10 n < 4 := by
    rcases Nat.eq_zero_or_pos n with rfl | hpos
    · simp
    · exact Nat.log_lt_of_lt_pow (Nat.ne_of_gt hpos) h
  unfold yearWidth
  omega

/-- A year before the year 0. -/
theorem lt_of_negative (h : a.year < 0) (hb : b.year.natAbs < 10 ^ 4) :
    rfc3339Year a.year ++ (monthDay a ++ 'T' :: us) < sqliteYear b.year ++ (monthDay b ++ ' ' :: vs)
      ↔ TextBefore a b := by
  unfold TextBefore Date.Before
  rw [if_neg (by omega), rfc3339Year, if_neg (by omega), if_pos h, sqliteYear, List.cons_append]
  by_cases hnegative : b.year < 0
  · rw [if_pos hnegative, List.cons_append, List.cons_lt_cons_iff]
    simp only [Char.lt_irrefl, true_and, false_or]
    by_cases hlong : 10000 ≤ a.year.natAbs
    · rw [padded_long_lt hlong hb, if_pos ⟨h, hnegative, by omega⟩, if_pos (by omega)]
    · have ha : a.year.natAbs < 10 ^ 4 := by omega
      rw [yearWidth_of_lt ha, dated_lt (by simp), padded_lt_iff ha hb, padded_eq_iff ha hb]
      by_cases hsame : a.year = b.year
      · rw [if_neg (by omega)]
        omega
      · rw [if_pos ⟨h, hnegative, hsame⟩, if_neg (by omega)]
        omega
  · have hsign := sign_lt_digitChar _ (Nat.mod_lt (b.year.natAbs / 10 ^ 3) (by decide))
    rw [if_neg hnegative, padded, List.cons_append, List.cons_lt_cons_iff, if_neg (by omega)]
    exact iff_of_true (Or.inl hsign.2.1) (Or.inl (by omega))

/-- A plus comes before a minus, and before the digits. -/
theorem lt_of_long (h : 9999 < a.year) :
    rfc3339Year a.year ++ (monthDay a ++ 'T' :: us)
      < sqliteYear b.year ++ (monthDay b ++ ' ' :: vs) := by
  rw [rfc3339Year, if_neg (by omega), if_neg (by omega), List.cons_append, sqliteYear]
  split
  · exact List.cons_lt_cons_iff.mpr (Or.inl (by decide))
  · exact List.cons_lt_cons_iff.mpr (Or.inl (sign_lt_digitChar _ (Nat.mod_lt _ (by decide))).1)

end

/-- **The order of the texts**, where the second is of a year of up to four digits. -/
theorem toRfc3339_lt (t : Int) {c : Int} (h : (dateOf c).year.natAbs < 10 ^ 4) :
    toRfc3339 t < sqliteDatetime c ↔ TextBefore (dateOf t) (dateOf c) := by
  obtain ⟨us, hus⟩ := toRfc3339_eq t
  obtain ⟨vs, hvs⟩ := sqliteDatetime_eq c
  rw [hus, hvs, ofList_lt]
  -- the year is written with a plus, with a minus, or with neither
  by_cases hlong : 9999 < (dateOf t).year
  · rw [TextBefore, if_pos hlong, iff_true]
    exact lt_of_long hlong
  · by_cases hnegative : (dateOf t).year < 0
    · exact lt_of_negative hnegative h
    · rw [TextBefore, if_neg hlong, if_neg fun h => hnegative h.1]
      exact lt_of_unsigned ⟨by omega, by omega⟩ h

/-! ## What is pruned -/

/-- A cutoff is of the years -4713 to 9999. -/
theorem cutoff_year {now : Int} {days : UInt32} (h : HasCutoff now days) :
    (dateOf (cutoff now days)).year.natAbs < 10 ^ 4 ∧ (dateOf (cutoff now days)).year ≤ 9999 := by
  obtain ⟨-, -, hfirst, hlast⟩ := h
  have hspec := yearOf_spec (cutoff now days / nanosPerDay + epochDay)
  have hbounds := yearStart_bounds (yearOf (cutoff now days / nanosPerDay + epochDay))
  have hbounds' := yearStart_bounds (yearOf (cutoff now days / nanosPerDay + epochDay) + 1)
  have hday : -2440588 ≤ cutoff now days / nanosPerDay ∧ cutoff now days / nanosPerDay ≤ 2932896 := by
    unfold cutoff nanosPerDay
    unfold julianEpoch at hfirst hlast
    omega
  show (yearOf _).natAbs < 10 ^ 4 ∧ yearOf _ ≤ 9999
  unfold epochDay at *
  omega

/-- A row whose text is on the same side of the cutoff as the instant it was started at. -/
structure InOrder (now : Int) (days : UInt32) (startedAt : Int) : Prop where
  /-- If there is no cutoff, nothing is pruned. -/
  null : ¬ HasCutoff now days → cutoff now days ≤ startedAt
  /-- A later year begins with a plus. -/
  fourDigits : HasCutoff now days → (dateOf startedAt).year ≤ 9999
  /-- Years with a minus descend, by their first four digits. -/
  negative : HasCutoff now days → (dateOf startedAt).year < 0 →
    (dateOf (cutoff now days)).year < 0 →
    (dateOf startedAt).year ≠ (dateOf (cutoff now days)).year →
    (dateOf startedAt).year ≤ -10000 ∧ leadingFour (dateOf startedAt).year.natAbs
      < (dateOf (cutoff now days)).year.natAbs
  /-- What was started on the day of the cutoff was not started before it. -/
  sameDay : HasCutoff now days → startedAt / nanosPerDay = cutoff now days / nanosPerDay →
    cutoff now days ≤ startedAt

theorem expired_iff_textBefore {now : Int} {days : UInt32} (h : HasCutoff now days) (startedAt : Int) :
    Expired now days startedAt ↔ TextBefore (dateOf startedAt) (dateOf (cutoff now days)) := by
  rw [← toRfc3339_lt startedAt (cutoff_year h).1]
  unfold Expired datetimeNow
  rw [if_pos h]
  simp

theorem before_dateOf {t c : Int} :
    (dateOf t).Before (dateOf c) ↔ t / nanosPerDay < c / nanosPerDay := by
  unfold dateOf
  rw [Date.before_iff]
  exact Int.add_lt_add_iff_right _

theorem lt_of_day_lt {t c : Int} (h : t / nanosPerDay < c / nanosPerDay) : t < c := by
  unfold nanosPerDay at h
  omega

theorem lt_of_year_lt {t c : Int} (h : (dateOf t).year < (dateOf c).year) : t < c :=
  lt_of_day_lt (before_dateOf.mp (Or.inl h))

theorem year_of_sameDay {t c : Int} (h : t / nanosPerDay = c / nanosPerDay) :
    (dateOf t).year = (dateOf c).year := by
  unfold dateOf
  rw [h]

/-- A row in order is pruned by its age. -/
theorem InOrder.expired_iff {now : Int} {days : UInt32} {startedAt : Int}
    (h : InOrder now days startedAt) (hcutoff : HasCutoff now days) :
    Expired now days startedAt ↔ startedAt < cutoff now days := by
  have hfour := h.fourDigits hcutoff
  have hnegative := h.negative hcutoff
  have hsameDay := h.sameDay hcutoff
  have hyear := (cutoff_year hcutoff).1
  have hbefore := @lt_of_day_lt startedAt (cutoff now days)
  have hafter := @lt_of_day_lt (cutoff now days) startedAt
  have hearlier := @lt_of_year_lt startedAt (cutoff now days)
  rw [expired_iff_textBefore hcutoff, TextBefore, before_dateOf]
  split_ifs <;> omega

/-- A row that is pruned by its age is in order. -/
theorem inOrder_of_expired_iff {now : Int} {days : UInt32} {startedAt : Int}
    (hcutoff : HasCutoff now days)
    (h : Expired now days startedAt ↔ startedAt < cutoff now days) : InOrder now days startedAt := by
  obtain ⟨hyear, hlast⟩ := cutoff_year hcutoff
  have hearlier := @lt_of_year_lt startedAt (cutoff now days)
  have hlater := @lt_of_year_lt (cutoff now days) startedAt
  rw [expired_iff_textBefore hcutoff, TextBefore, before_dateOf] at h
  have hfour : (dateOf startedAt).year ≤ 9999 := by
    -- a later year would be pruned
    by_contra hnot
    rw [if_pos (by omega), true_iff] at h
    have := hlater (by omega)
    omega
  rw [if_neg (by omega)] at h
  refine ⟨fun hnot => absurd hcutoff hnot, fun _ => hfour, fun _ hneg hneg' hne => ?_,
    fun _ hsame => ?_⟩
  · rw [if_pos ⟨hneg, hneg', hne⟩] at h
    split_ifs at h <;> omega
  · rw [if_neg fun hsigns => hsigns.2.2 (year_of_sameDay hsame)] at h
    omega

/-- **A row is pruned by its age** exactly if its text is in order. -/
theorem inOrder_iff (now : Int) (days : UInt32) (startedAt : Int) :
    InOrder now days startedAt ↔ (Expired now days startedAt ↔ startedAt < cutoff now days) := by
  by_cases hcutoff : HasCutoff now days
  · exact ⟨fun h => h.expired_iff hcutoff, inOrder_of_expired_iff hcutoff⟩
  · have hkept : ¬ Expired now days startedAt := by
      rintro ⟨text, htext, -⟩
      rw [datetimeNow, if_neg hcutoff] at htext
      cases htext
    constructor
    · intro h
      exact iff_of_false hkept (Int.not_lt.mpr (h.null hcutoff))
    · intro h
      exact ⟨fun _ => Int.not_lt.mp (mt h.mpr hkept), fun hnot => absurd hnot hcutoff,
        fun hnot => absurd hnot hcutoff, fun hnot => absurd hnot hcutoff⟩

section

variable {ρ : Type}

/-- **History is pruned by age** exactly if the texts of its rows are in order. -/
theorem prunesByAge_iff (startedAt : ρ → Int) (rows : List ρ) (now : Int) (retentionDays : UInt32) :
    PrunesByAge startedAt rows now retentionDays
      ↔ ∀ r ∈ rows, InOrder now retentionDays (startedAt r) := by
  have hdecide : ∀ r, InOrder now retentionDays (startedAt r)
      ↔ decide (Expired now retentionDays (startedAt r))
        = decide (startedAt r < cutoff now retentionDays) := by
    intro r
    rw [inOrder_iff, decide_eq_decide]
  simp only [PrunesByAge, pruneSyncHistory, decide_not, hdecide]
  constructor
  · intro heq r hr
    have hmem := congrArg (r ∈ Prod.fst ·) heq
    exact decide_eq_decide.mpr (not_iff_not.mp (by simpa [hr] using hmem))
  · intro hrows
    refine Prod.ext (List.filter_congr fun r hr => ?_)
      (congrArg List.length (List.filter_congr fun r hr => ?_))
    · rw [hrows r hr]
    · rw [hrows r hr]

/-- In the years that are written with four digits, it is the day of the cutoff that matters. -/
theorem prunesByAge_iff_of_years {startedAt : ρ → Int} {rows : List ρ} {now : Int}
    {retentionDays : UInt32} (hcutoff : HasCutoff now retentionDays)
    (hyears : ∀ r ∈ rows, 0 ≤ (dateOf (startedAt r)).year ∧ (dateOf (startedAt r)).year ≤ 9999) :
    PrunesByAge startedAt rows now retentionDays ↔ ∀ r ∈ rows,
      startedAt r / nanosPerDay = cutoff now retentionDays / nanosPerDay →
        cutoff now retentionDays ≤ startedAt r := by
  rw [prunesByAge_iff]
  refine forall₂_congr fun r hr => ?_
  obtain ⟨hfirst, hlast⟩ := hyears r hr
  constructor
  · intro hrow
    exact hrow.sameDay hcutoff
  · intro hday
    exact ⟨fun hnot => absurd hcutoff hnot, fun _ => hlast, fun _ hneg => absurd hneg (by omega),
      fun _ => hday⟩

end

theorem year_nonneg {t : Int} (h : 0 ≤ t) : 0 ≤ (dateOf t).year := by
  have hepoch : yearOf epochDay = 1970 := by decide
  have hmono : yearOf epochDay ≤ yearOf (t / nanosPerDay + epochDay) := by
    refine yearOf_mono ?_
    unfold nanosPerDay
    omega
  show 0 ≤ yearOf _
  omega

/-- A database keeps what was started on the day of the cutoff, or on a later one. -/
theorem mem_pruneDatabase {db : Database} {now : Int} {retentionDays : UInt32} {r : SyncRecord}
    (hcutoff : HasCutoff now retentionDays) (hr : r ∈ db.syncHistory)
    (hyear : (dateOf r.startedAt).year ≤ 9999) :
    r ∈ (pruneDatabase db now retentionDays).1.syncHistory
      ↔ cutoff now retentionDays / nanosPerDay ≤ (r.startedAt : Int) / nanosPerDay := by
  have hfirst := year_nonneg (Int.natCast_nonneg r.startedAt)
  have hexpired : Expired now retentionDays r.startedAt
      ↔ (r.startedAt : Int) / nanosPerDay < cutoff now retentionDays / nanosPerDay := by
    rw [expired_iff_textBefore hcutoff, TextBefore, if_neg (by omega), if_neg (by omega), before_dateOf]
  unfold pruneDatabase pruneSyncHistory
  simp [hr, hexpired]

/-- Started at 2024-05-01T03:00:00Z. -/
def earlyMorning : Int := 1714532400 * 1000000000

/-- At noon of the next day, of rows that are to be kept a day. -/
theorem earlyMorning_kept : cutoff 1714651200000 1 = earlyMorning + 9 * 3600 * 1000000000
    ∧ pruneSyncHistory id [earlyMorning] 1714651200000 1 = ([earlyMorning], 0)
    ∧ ¬ PrunesByAge id [earlyMorning] 1714651200000 1 := by
  refine ⟨by decide, by decide +kernel, ?_⟩
  unfold PrunesByAge
  decide +kernel

end SynchrotronCD.Db.HistoryPruning
