import Mathlib.Algebra.Order.Ring.Int

/-!
# Transactions

A connection to a database reads what it has written, and so do others once it is
committed. A transaction is open while there are marks in it: that of its beginning and
those of the savepoints, each with the content to go back to.

Any statement may fail, for a reason of its own or of the environment's; then it does
nothing, unless the database rolls the whole transaction back with it. A batch of
statements in an open transaction is carried out, or leaves the transaction open with a
part of it, or is rolled back (`executeBatch_cases`).
-/

namespace Lib

/-- What the environment makes of a statement. -/
inductive Outcome where
  | done
  | failed (rolledBack : Bool)
deriving DecidableEq, Repr

/-- Where a transaction began, or a savepoint in it was set. -/
structure Mark (σ : Type*) where
  savepoint : Option String
  content : σ

structure Conn (σ : Type*) where
  committed : σ
  /-- What the connection reads. -/
  content : σ
  /-- The marks of the open transaction, the latest first. -/
  marks : List (Mark σ)
  quiet : marks = [] → content = committed

variable {σ : Type*}

namespace Conn

/-- No transaction is open. -/
def idle (s : σ) : Conn σ := ⟨s, s, [], fun _ => rfl⟩

@[simp] theorem idle_committed (s : σ) : (idle s).committed = s := rfl
@[simp] theorem idle_content (s : σ) : (idle s).content = s := rfl
@[simp] theorem idle_marks (s : σ) : (idle s).marks = [] := rfl

theorem eq_idle {c : Conn σ} (h : c.marks = []) : c = idle c.committed := by
  obtain ⟨committed, content, marks, quiet⟩ := c
  obtain rfl : marks = [] := h
  obtain rfl := quiet rfl
  rfl

/-- The transaction is undone. -/
def abort (c : Conn σ) : Conn σ := idle c.committed

/-- Make an attempt at a statement, which may also fail by itself. -/
def attempt (c : Conn σ) (o : Outcome) (statement : Conn σ → Option (Conn σ)) : Conn σ × Bool :=
  match o with
  | .done =>
    match statement c with
    | some c' => (c', true)
    | none => (c, false)
  | .failed rolledBack => (if rolledBack then c.abort else c, false)

/-- `BEGIN`. -/
def begin (c : Conn σ) : Option (Conn σ) :=
  match c.marks with
  | [] => some ⟨c.committed, c.content, [⟨none, c.content⟩], nofun⟩
  | _ :: _ => none

/-- `COMMIT`. -/
def commit (c : Conn σ) : Option (Conn σ) :=
  match c.marks with
  | [] => none
  | _ :: _ => some (idle c.content)

/-- `ROLLBACK`. -/
def rollback (c : Conn σ) : Option (Conn σ) :=
  match c.marks with
  | [] => none
  | _ :: _ => some c.abort

/-- `SAVEPOINT name`, which begins a transaction if none is open. -/
def savepoint (name : String) (c : Conn σ) : Option (Conn σ) :=
  some ⟨c.committed, c.content, ⟨some name, c.content⟩ :: c.marks, nofun⟩

/-- `RELEASE name`, which commits if the transaction began with that savepoint. -/
def release (name : String) (c : Conn σ) : Option (Conn σ) :=
  match c.marks.dropWhile (·.savepoint ≠ some name) with
  | [] => none
  | [_] => some (idle c.content)
  | _ :: mark :: marks => some ⟨c.committed, c.content, mark :: marks, nofun⟩

/-- `ROLLBACK TO name`, after which the savepoint is still set. -/
def rollbackTo (name : String) (c : Conn σ) : Option (Conn σ) :=
  match c.marks.dropWhile (·.savepoint ≠ some name) with
  | [] => none
  | mark :: marks => some ⟨c.committed, mark.content, mark :: marks, nofun⟩

/-- A statement that changes the content, and commits if no transaction is open. -/
def execute (change : σ → Option σ) (c : Conn σ) : Option (Conn σ) :=
  (change c.content).map fun s =>
    match c.marks with
    | [] => idle s
    | mark :: marks => ⟨c.committed, s, mark :: marks, nofun⟩

/-- One statement after the other, until one fails. -/
def executeBatch (outcome : Nat → Outcome) : List (σ → Option σ) → Conn σ → Conn σ × Bool
  | [], c => (c, true)
  | change :: changes, c =>
    match c.attempt (outcome 0) (execute change) with
    | (c', true) => executeBatch (fun i => outcome (i + 1)) changes c'
    | (c', false) => (c', false)

/-- What the changes make of a content. -/
def changed : List (σ → Option σ) → σ → Option σ
  | [], s => some s
  | change :: changes, s => (change s).bind (changed changes)

/-! ## Single statements -/

theorem attempt_failed (c : Conn σ) (rolledBack : Bool) (statement : Conn σ → Option (Conn σ)) :
    c.attempt (.failed rolledBack) statement = (if rolledBack then c.abort else c, false) := rfl

theorem attempt_done {c c' : Conn σ} {statement : Conn σ → Option (Conn σ)}
    (h : statement c = some c') : c.attempt .done statement = (c', true) := by
  simp only [attempt, h]

theorem attempt_idle_failed (s : σ) (rolledBack : Bool) (statement : Conn σ → Option (Conn σ)) :
    (idle s).attempt (.failed rolledBack) statement = (idle s, false) := by
  cases rolledBack <;> rfl

/-- The transaction in which a content has become another. -/
def opened (c : Conn σ) (mark : Mark σ) (marks : List (Mark σ)) (s : σ) : Conn σ :=
  ⟨c.committed, s, mark :: marks, nofun⟩

@[simp] theorem opened_committed (c : Conn σ) (mark : Mark σ) (marks : List (Mark σ)) (s : σ) :
    (c.opened mark marks s).committed = c.committed := rfl

@[simp] theorem opened_content (c : Conn σ) (mark : Mark σ) (marks : List (Mark σ)) (s : σ) :
    (c.opened mark marks s).content = s := rfl

@[simp] theorem opened_marks (c : Conn σ) (mark : Mark σ) (marks : List (Mark σ)) (s : σ) :
    (c.opened mark marks s).marks = mark :: marks := rfl

theorem begin_idle (s : σ) : begin (idle s) = some ((idle s).opened ⟨none, s⟩ [] s) := rfl

theorem commit_opened (c : Conn σ) (mark : Mark σ) (marks : List (Mark σ)) (s : σ) :
    commit (c.opened mark marks s) = some (idle s) := rfl

theorem rollback_opened (c : Conn σ) (mark : Mark σ) (marks : List (Mark σ)) (s : σ) :
    rollback (c.opened mark marks s) = some c.abort := rfl

/-- There is nothing to roll back. -/
theorem attempt_rollback_idle (s : σ) (o : Outcome) :
    (idle s).attempt o rollback = (idle s, false) := by
  cases o with
  | done => rfl
  | failed rolledBack => exact attempt_idle_failed s rolledBack _

theorem execute_opened {c : Conn σ} {mark : Mark σ} {marks : List (Mark σ)} {s : σ}
    (change : σ → Option σ) :
    execute change (c.opened mark marks s) = (change s).map (c.opened mark marks) := rfl

/-- In an open transaction, a change is made, or not, or everything is undone. -/
theorem attempt_execute_opened (c : Conn σ) (mark : Mark σ) (marks : List (Mark σ)) (s : σ)
    (o : Outcome) (change : σ → Option σ) :
    (∃ t, change s = some t
        ∧ (c.opened mark marks s).attempt o (execute change) = (c.opened mark marks t, true))
      ∨ (c.opened mark marks s).attempt o (execute change) = (c.opened mark marks s, false)
      ∨ (c.opened mark marks s).attempt o (execute change) = (c.abort, false) := by
  cases o with
  | done =>
      rw [attempt, execute_opened]
      cases change s with
      | none => exact Or.inr (Or.inl rfl)
      | some t => exact Or.inl ⟨t, rfl, rfl⟩
  | failed rolledBack =>
      rw [attempt_failed]
      cases rolledBack
      · exact Or.inr (Or.inl rfl)
      · exact Or.inr (Or.inr rfl)

/-! ## Savepoints -/

theorem savepoint_idle (name : String) (s : σ) :
    savepoint name (idle s) = some ((idle s).opened ⟨some name, s⟩ [] s) := rfl

theorem release_opened (name : String) (c : Conn σ) (start s : σ) :
    release name (c.opened ⟨some name, start⟩ [] s) = some (idle s) := by
  simp [release]

theorem rollbackTo_opened (name : String) (c : Conn σ) (start s : σ) :
    rollbackTo name (c.opened ⟨some name, start⟩ [] s)
      = some (c.opened ⟨some name, start⟩ [] start) := by
  simp only [rollbackTo, opened_marks]
  rw [List.dropWhile_cons_of_neg (by simp)]
  rfl

/-- There is no savepoint. -/
theorem attempt_savepoint_idle (name : String) (s : σ) (o : Outcome) :
    (idle s).attempt o (rollbackTo name) = (idle s, false)
      ∧ (idle s).attempt o (release name) = (idle s, false) := by
  cases o with
  | done => exact ⟨rfl, rfl⟩
  | failed rolledBack => exact ⟨attempt_idle_failed s rolledBack _, attempt_idle_failed s rolledBack _⟩

/-- A release commits, or fails with everything undone, if it does not fail alone. -/
theorem attempt_release_opened (name : String) (s t : σ) {o : Outcome} (h : o ≠ .failed false) :
    ((idle s).opened ⟨some name, s⟩ [] t).attempt o (release name) = (idle t, true)
      ∨ ((idle s).opened ⟨some name, s⟩ [] t).attempt o (release name) = (idle s, false) := by
  cases o with
  | done => exact Or.inl (attempt_done (release_opened name _ s t))
  | failed rolledBack =>
      cases rolledBack
      · exact absurd rfl h
      · exact Or.inr rfl

/-- **What was done since a savepoint is undone**, if neither of the statements that undo it
fails alone. -/
theorem undo_savepoint {name : String} {s t : σ} {o o' : Outcome} (h : o ≠ .failed false)
    (h' : o' ≠ .failed false) :
    ((((idle s).opened ⟨some name, s⟩ [] t).attempt o (rollbackTo name)).1.attempt o'
      (release name)).1 = idle s := by
  cases o with
  | done =>
      rw [attempt_done (rollbackTo_opened name _ s t)]
      rcases attempt_release_opened name s s h' with heq | heq <;> rw [heq]
  | failed rolledBack =>
      cases rolledBack
      · exact absurd rfl h
      · exact congrArg Prod.fst (attempt_savepoint_idle name s o').2

/-! ## Batches -/

/-- The first so many outcomes are as they should be. -/
def AllDone (outcome : Nat → Outcome) (n : Nat) : Prop := ∀ i < n, outcome i = .done

/-- The first statement that fails is the `i`th of so many. -/
def FirstFails (outcome : Nat → Outcome) (n i : Nat) (rolledBack : Bool) : Prop :=
  i < n ∧ AllDone outcome i ∧ outcome i = .failed rolledBack

theorem allDone_succ {outcome : Nat → Outcome} {n : Nat} : AllDone outcome (n + 1) ↔
    outcome 0 = .done ∧ AllDone (fun i => outcome (i + 1)) n := by
  constructor
  · intro h
    exact ⟨h 0 (Nat.succ_pos n), fun i hi => h (i + 1) (Nat.succ_lt_succ hi)⟩
  · rintro ⟨h0, h⟩ i hi
    cases i with
    | zero => exact h0
    | succ i => exact h i (Nat.lt_of_succ_lt_succ hi)

theorem FirstFails.succ {outcome : Nat → Outcome} {n i : Nat} {rolledBack : Bool}
    (h0 : outcome 0 = .done) (h : FirstFails (fun i => outcome (i + 1)) n i rolledBack) :
    FirstFails outcome (n + 1) (i + 1) rolledBack :=
  ⟨Nat.succ_lt_succ h.1, allDone_succ.mpr ⟨h0, h.2.1⟩, h.2.2⟩

/-- There is one first statement that fails. -/
theorem FirstFails.unique {outcome : Nat → Outcome} {n i j : Nat} {a b : Bool}
    (h : FirstFails outcome n i a) (h' : FirstFails outcome n j b) : i = j ∧ a = b := by
  obtain rfl : i = j := by
    rcases Nat.lt_trichotomy i j with hlt | rfl | hgt
    · have := h'.2.1 i hlt
      rw [h.2.2] at this
      cases this
    · rfl
    · have := h.2.1 j hgt
      rw [h'.2.2] at this
      cases this
  exact ⟨rfl, Outcome.failed.inj (h.2.2.symm.trans h'.2.2)⟩

theorem FirstFails.not_allDone {outcome : Nat → Outcome} {n i : Nat} {rolledBack : Bool}
    (h : FirstFails outcome n i rolledBack) : ¬ AllDone outcome n := by
  intro hall
  have := hall i h.1
  rw [h.2.2] at this
  cases this

/-- **A batch in an open transaction**, of changes that can be made: it is carried out, or stops
where a statement fails first. -/
theorem executeBatch_cases (outcome : Nat → Outcome) {changes : List (σ → Option σ)} (c : Conn σ)
    (mark : Mark σ) (marks : List (Mark σ)) {s s' : σ} (h : changed changes s = some s') :
    (AllDone outcome changes.length
        ∧ executeBatch outcome changes (c.opened mark marks s) = (c.opened mark marks s', true))
      ∨ ∃ i rolledBack, FirstFails outcome changes.length i rolledBack
        ∧ ∃ t, changed (changes.take i) s = some t
          ∧ executeBatch outcome changes (c.opened mark marks s)
            = (if rolledBack then c.abort else c.opened mark marks t, false) := by
  induction changes generalizing outcome s with
  | nil =>
      obtain rfl := Option.some.inj h
      exact Or.inl ⟨nofun, rfl⟩
  | cons change changes ih =>
      obtain ⟨s₁, hchange, hrest⟩ := Option.bind_eq_some_iff.mp h
      cases hout : outcome 0 with
      | failed rolledBack =>
          refine Or.inr ⟨0, rolledBack, ⟨Nat.succ_pos _, nofun, hout⟩, s, rfl, ?_⟩
          rw [executeBatch, hout, attempt_failed]
          cases rolledBack <;> rfl
      | done =>
          have hstep : (c.opened mark marks s).attempt (outcome 0) (execute change)
              = (c.opened mark marks s₁, true) := by
            rw [hout]
            refine attempt_done ?_
            rw [execute_opened, hchange]
            rfl
          rw [executeBatch, hstep]
          rcases ih (fun i => outcome (i + 1)) hrest with
            ⟨hall, heq⟩ | ⟨i, rolledBack, hfirst, t, ht, heq⟩
          · exact Or.inl ⟨allDone_succ.mpr ⟨hout, hall⟩, heq⟩
          · refine Or.inr ⟨i + 1, rolledBack, hfirst.succ hout, t, ?_, heq⟩
            rw [List.take_succ_cons, changed, hchange]
            exact ht

end Conn

end Lib
