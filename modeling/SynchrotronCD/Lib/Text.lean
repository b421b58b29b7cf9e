import Mathlib.Data.List.Basic

/-!
# Lines and words

A text is cut into lines at a terminator; what follows the last one is a line of its
own, unless it is empty, and has not been terminated. So a text that is appended to
another continues its unterminated line (`terminated_append_line`).

Words are what stands between separators. Nothing here depends on which elements
these are.
-/

namespace Lib

section

variable {α : Type*} [DecidableEq α] (nl : α)

/-- The lines that have been terminated; `cur` is the line under way. -/
def terminated (cur : List α) : List α → List (List α)
  | [] => []
  | c :: cs => if c = nl then cur :: terminated [] cs else terminated (cur ++ [c]) cs

/-- What follows the last terminator. -/
def unterminated (cur : List α) : List α → List α
  | [] => cur
  | c :: cs => if c = nl then unterminated [] cs else unterminated (cur ++ [c]) cs

theorem terminated_append (cur cs ds : List α) :
    terminated nl cur (cs ++ ds)
      = terminated nl cur cs ++ terminated nl (unterminated nl cur cs) ds := by
  induction cs generalizing cur with
  | nil => rfl
  | cons c cs ih =>
      simp only [List.cons_append, terminated, unterminated]
      split
      · rw [ih, List.cons_append]
      · exact ih _

theorem unterminated_append (cur cs ds : List α) :
    unterminated nl cur (cs ++ ds) = unterminated nl (unterminated nl cur cs) ds := by
  induction cs generalizing cur with
  | nil => rfl
  | cons c cs ih =>
      simp only [List.cons_append, unterminated]
      split
      · exact ih _
      · exact ih _

variable {nl}

/-- A text without terminator continues the line under way. -/
theorem terminated_of_notMem {cs : List α} (h : nl ∉ cs) (cur : List α) :
    terminated nl cur cs = [] := by
  induction cs generalizing cur with
  | nil => rfl
  | cons c cs ih =>
      obtain ⟨hne, hcs⟩ := not_or.mp (mt List.mem_cons.mpr h)
      rw [terminated, if_neg (Ne.symm hne)]
      exact ih hcs _

theorem unterminated_of_notMem {cs : List α} (h : nl ∉ cs) (cur : List α) :
    unterminated nl cur cs = cur ++ cs := by
  induction cs generalizing cur with
  | nil => rw [unterminated, List.append_nil]
  | cons c cs ih =>
      obtain ⟨hne, hcs⟩ := not_or.mp (mt List.mem_cons.mpr h)
      rw [unterminated, if_neg (Ne.symm hne), ih hcs, List.append_assoc, List.singleton_append]

/-- **An appended line continues the unterminated one.** -/
theorem terminated_append_line {cs line : List α} (h : nl ∉ line) :
    terminated nl [] (cs ++ (line ++ [nl]))
      = terminated nl [] cs ++ [unterminated nl [] cs ++ line] := by
  rw [terminated_append, terminated_append, terminated_of_notMem h, unterminated_of_notMem h]
  simp [terminated]

theorem unterminated_append_line {cs line : List α} : unterminated nl [] (cs ++ (line ++ [nl])) = [] := by
  rw [← List.append_assoc, unterminated_append]
  simp [unterminated]

end

/-! ## Words -/

/-- Nothing between separators is one. -/
theorem notMem_of_mem_splitOn {α : Type*} [DecidableEq α] {sep : α} {cs w : List α}
    (h : w ∈ cs.splitOn sep) : sep ∉ w := by
  induction cs generalizing w with
  | nil =>
      rw [List.splitOn_nil, List.mem_singleton] at h
      rw [h]
      exact List.not_mem_nil
  | cons c cs ih =>
      rw [List.splitOn_cons_eq_if_modifyHead] at h
      split at h
      · rcases List.mem_cons.mp h with rfl | h
        · exact List.not_mem_nil
        · exact ih h
      · rename_i hc
        cases hcs : cs.splitOn sep with
        | nil => exact absurd hcs (List.splitOn_ne_nil _ _)
        | cons v vs =>
            rw [hcs] at h ih
            rcases List.mem_cons.mp h with rfl | h
            · -- the first word is continued
              have hne : sep ≠ c := fun he => hc (beq_iff_eq.mpr he.symm)
              exact List.not_mem_cons_of_ne_of_not_mem hne (ih List.mem_cons_self)
            · exact ih (List.mem_cons_of_mem _ h)

/-- Words with a separator in front of each but the first. -/
theorem intercalate_cons {α : Type*} (sep : α) (w : List α) (ws : List (List α)) :
    [sep].intercalate (w :: ws) = w ++ ws.flatMap (sep :: ·) := by
  induction ws generalizing w with
  | nil => simp
  | cons v ws ih =>
      have hcons : [sep].intercalate (w :: v :: ws) = w ++ (sep :: [sep].intercalate (v :: ws)) := by
        simp [List.intercalate]
      rw [hcons, ih, List.flatMap_cons]
      rfl

/-- A code that can be read back from the front loses nothing. -/
theorem flatMap_injective {α β : Type*} {f : α → List β} (hne : ∀ a, f a ≠ [])
    (hdec : ∀ {a b : α} {xs ys : List β}, f a ++ xs = f b ++ ys → a = b ∧ xs = ys) :
    Function.Injective (List.flatMap f) := by
  intro as
  induction as with
  | nil =>
      intro bs h
      cases bs with
      | nil => rfl
      | cons b bs => exact absurd (List.append_eq_nil_iff.mp h.symm).1 (hne b)
  | cons a as ih =>
      intro bs h
      cases bs with
      | nil => exact absurd (List.append_eq_nil_iff.mp h).1 (hne a)
      | cons b bs =>
          rw [List.flatMap_cons, List.flatMap_cons] at h
          obtain ⟨rfl, hrest⟩ := hdec h
          rw [ih hrest]

section

variable {α : Type*} (sep : α → Bool)

/-- What stands between separators. -/
def words (cs : List α) : List (List α) := (cs.splitOnP sep).filter (fun w => !w.isEmpty)

variable {sep}

/-- A word and what is separated from it. -/
theorem words_append {w : List α} (hne : w ≠ []) (h : ∀ c ∈ w, sep c = false) {c : α}
    (hc : sep c = true) (cs : List α) : words sep (w ++ c :: cs) = w :: words sep cs := by
  unfold words
  rw [List.splitOnP_append_cons_of_forall_mem h c hc, List.filter_cons_of_pos]
  simpa using hne

/-- Separators in front separate nothing. -/
theorem words_separators_append {pre : List α} (h : ∀ c ∈ pre, sep c = true) (cs : List α) :
    words sep (pre ++ cs) = words sep cs := by
  induction pre with
  | nil => rfl
  | cons c pre ih =>
      rw [List.forall_mem_cons] at h
      have hsplit : ([] ++ c :: (pre ++ cs)).splitOnP sep = [] :: (pre ++ cs).splitOnP sep :=
        List.splitOnP_append_cons_of_forall_mem (by simp) c h.1 _
      rw [List.nil_append] at hsplit
      rw [← ih h.2, List.cons_append]
      unfold words
      rw [hsplit, List.filter_cons_of_neg (by simp)]

theorem words_singleton {w : List α} (hne : w ≠ []) (h : ∀ c ∈ w, sep c = false) :
    words sep w = [w] := by
  unfold words
  rw [List.splitOnP_eq_singleton h, List.filter_cons_of_pos, List.filter_nil]
  simpa using hne

end

end Lib
