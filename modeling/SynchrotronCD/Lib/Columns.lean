import SynchrotronCD.Lib.Runs

/-!
# Columns of a run

A column is a part of the state that some events overwrite and the others leave as
it is. After a run it holds what was written last (`exec_column`), and the events
that do not write to it might as well not have happened (`exec_filter`).
-/

namespace Lib

variable {σ ε β : Type*} {step : σ → ε → σ}

/-- What was written last. -/
def lastWrite (writes : ε → Option β) (es : List ε) : Option β := (es.filterMap writes).getLast?

@[simp] theorem lastWrite_nil (writes : ε → Option β) : lastWrite writes [] = none := rfl

theorem lastWrite_snoc (writes : ε → Option β) (es : List ε) (e : ε) :
    lastWrite writes (es ++ [e]) = (writes e).or (lastWrite writes es) := by
  unfold lastWrite
  rw [List.filterMap_append]
  cases h : writes e with
  | none => simp [h]
  | some b => simp [h]

theorem lastWrite_map {γ : Type*} (writes : ε → Option γ) (g : γ → β) (es : List ε) :
    lastWrite (fun e => (writes e).map g) es = (lastWrite writes es).map g := by
  unfold lastWrite
  rw [← List.map_filterMap, List.getLast?_map]

/-- **A column holds what was written to it last.** -/
theorem exec_column {f : σ → β} {w : ε → Option β}
    (h : ∀ s e, f (step s e) = (w e).getD (f s)) (s : σ) (es : List ε) :
    f (exec step s es) = (lastWrite w es).getD (f s) := by
  induction es using List.reverseRecOn with
  | nil => rfl
  | append_singleton es e ih =>
      rw [exec_snoc, h, ih, lastWrite_snoc]
      cases w e <;> rfl

/-- The same for a column that is empty until something is written. -/
theorem exec_optionColumn {f : σ → Option β} {w : ε → Option β}
    (h : ∀ s e, f (step s e) = (w e).or (f s)) (s : σ) (es : List ε) :
    f (exec step s es) = (lastWrite w es).or (f s) := by
  induction es using List.reverseRecOn with
  | nil => rfl
  | append_singleton es e ih =>
      rw [exec_snoc, h, ih, lastWrite_snoc]
      cases w e <;> rfl

/-- **Events that do not touch a column make no difference to it.** -/
theorem exec_filter {f : σ → β} {p : ε → Bool} {g : β → ε → β}
    (h : ∀ s e, f (step s e) = g (f s) e) (hother : ∀ b e, p e = false → g b e = b)
    (s : σ) (es : List ε) : f (exec step s es) = f (exec step s (es.filter p)) := by
  induction es using List.reverseRecOn with
  | nil => rfl
  | append_singleton es e ih =>
      rw [exec_snoc, List.filter_append]
      cases he : p e with
      | true => rw [List.filter_cons_of_pos he, List.filter_nil, exec_snoc, h, h, ih]
      | false =>
          have hne : ¬ p e = true := by rw [he]; exact Bool.false_ne_true
          rw [List.filter_cons_of_neg hne, List.filter_nil, List.append_nil, h, hother _ _ he, ih]

/-- A part of the state that goes its own way. -/
theorem exec_map {τ : Type*} {f : σ → τ} {g : τ → ε → τ}
    (h : ∀ s e, f (step s e) = g (f s) e) (s : σ) (es : List ε) :
    f (exec step s es) = exec g (f s) es := by
  induction es using List.reverseRecOn with
  | nil => rfl
  | append_singleton es e ih => rw [exec_snoc, exec_snoc, h, ih]

end Lib
