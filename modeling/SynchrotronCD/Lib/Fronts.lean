import Mathlib.Data.List.Induction

/-!
# The longest front that fits

A bounded list that only drops entries at its end keeps a front of what it was given. If it
drops no more than it has to, it keeps the longest front that fits (`LongestFront`). Where what
fits goes on fitting without its first entry, such a list can be filled one entry at a time: an
entry put before the longest front of the rest leaves the longest front of the whole (`cons`).
-/

namespace Lib

section

variable {α : Type*} {Fits : List α → Prop}

/-- A front of a list that fits, and no longer one does. -/
structure LongestFront (Fits : List α → Prop) (xs kept : List α) : Prop where
  front : kept <+: xs
  fits : Fits kept
  longest : ∀ ys, ys <+: xs → Fits ys → ys.length ≤ kept.length

namespace LongestFront

variable {xs kept : List α}

/-- Any front that fits is a front of the longest. -/
theorem above (h : LongestFront Fits xs kept) {ys : List α} (hys : ys <+: xs) (hfits : Fits ys) :
    ys <+: kept :=
  List.prefix_of_prefix_length_le hys h.front (h.longest ys hys hfits)

/-- A list that fits is its own longest front. -/
theorem eq_of_fits (h : LongestFront Fits xs kept) (hfits : Fits xs) : kept = xs :=
  h.front.eq_of_length_le (h.longest xs (List.prefix_refl xs) hfits)

theorem refl (h : Fits xs) : LongestFront Fits xs xs :=
  ⟨List.prefix_refl xs, h, fun _ hys _ => hys.length_le⟩

/-- The last entry of a list that does not fit has to go. -/
theorem of_dropLast (h : LongestFront Fits xs.dropLast kept) (hover : ¬ Fits xs) :
    LongestFront Fits xs kept := by
  refine ⟨h.front.trans (List.dropLast_prefix xs), h.fits, fun ys hys hfits => ?_⟩
  obtain ⟨gone, rfl⟩ := hys
  have hne : gone ≠ [] := fun hnil => hover (by rwa [hnil, List.append_nil])
  refine h.longest ys ?_ hfits
  rw [List.dropLast_append_of_ne_nil hne]
  exact List.prefix_append ys _

/-- Two bounds kept one after the other, where the first holds of every front of what meets it. -/
theorem and {Fits' : List α → Prop} (hclosed : ∀ xs ys, ys <+: xs → Fits xs → Fits ys)
    (h : LongestFront Fits xs kept) {kept' : List α} (h' : LongestFront Fits' kept kept') :
    LongestFront (fun ys => Fits ys ∧ Fits' ys) xs kept' where
  front := h'.front.trans h.front
  fits := ⟨hclosed kept kept' h'.front h.fits, h'.fits⟩
  longest ys hys hboth := h'.longest ys (h.above hys hboth.1) hboth.2

/-- What is dropped may be dropped before or after the next entry is put in front. -/
theorem cons (htail : ∀ x ys, Fits (x :: ys) → Fits ys) (h : LongestFront Fits xs kept) {x : α}
    {kept' : List α} (h' : LongestFront Fits (x :: kept) kept') :
    LongestFront Fits (x :: xs) kept' := by
  have hsub : x :: kept <+: x :: xs := (List.prefix_cons_inj x).mpr h.front
  refine ⟨h'.front.trans hsub, h'.fits, fun ys hys hfits => ?_⟩
  cases ys with
  | nil => exact Nat.zero_le _
  | cons y ys =>
      obtain ⟨rfl, hrest⟩ := List.cons_prefix_cons.mp hys
      have habove := h.above hrest (htail y ys hfits)
      exact h'.longest (y :: ys) ((List.prefix_cons_inj y).mpr habove) hfits

end LongestFront

end

end Lib
