import Mathlib.Data.List.Basic

/-!
# UTF-8

The bytes of a text. No character's bytes begin those of another, so where the bytes
of one text begin with those of another, so do the characters.
-/

namespace Lib

/-- The UTF-8 bytes of a text. -/
def utf8 (cs : List Char) : List UInt8 := (String.ofList cs).toUTF8.data.toList

theorem utf8_eq (cs : List Char) : utf8 cs = cs.utf8Encode.data.toList := by
  rw [utf8, String.toUTF8_eq_toByteArray, String.toByteArray_ofList]

@[simp] theorem utf8_nil : utf8 [] = [] := rfl

@[simp] theorem utf8_append (cs ds : List Char) : utf8 (cs ++ ds) = utf8 cs ++ utf8 ds := by
  rw [utf8_eq, utf8_eq, utf8_eq, List.utf8Encode_append]
  simp

/-- Bytes that begin with those of a text are its bytes and those of a rest. -/
theorem utf8_prefix {cs ds : List Char} {b : List UInt8} (h : utf8 cs ++ b = utf8 ds) :
    ∃ es, ds = cs ++ es ∧ b = utf8 es := by
  have hbytes : cs.utf8Encode ++ ⟨b.toArray⟩ = ds.utf8Encode := by
    refine ByteArray.ext (Array.toList_inj.mp ?_)
    rw [utf8_eq, utf8_eq] at h
    simpa using h
  obtain ⟨es, rfl⟩ := List.isPrefix_of_utf8Encode_append_eq_utf8Encode _ hbytes
  rw [utf8_append, List.append_cancel_left_eq] at h
  exact ⟨es, rfl, h⟩

/-- Texts in front of other bytes: where the bytes agree, one text continues the other. -/
theorem utf8_append_eq_append {cs ds : List Char} {x y : List UInt8} :
    utf8 cs ++ x = utf8 ds ++ y ↔
      (∃ es, ds = cs ++ es ∧ x = utf8 es ++ y) ∨ ∃ es, cs = ds ++ es ∧ y = utf8 es ++ x := by
  refine ⟨fun h => ?_, ?_⟩
  · rcases List.append_eq_append_iff.mp h with ⟨b, hds, hx⟩ | ⟨b, hcs, hy⟩
    · obtain ⟨es, hes, rfl⟩ := utf8_prefix hds.symm
      exact .inl ⟨es, hes, hx⟩
    · obtain ⟨es, hes, rfl⟩ := utf8_prefix hcs.symm
      exact .inr ⟨es, hes, hy⟩
  · rintro (⟨es, rfl, rfl⟩ | ⟨es, rfl, rfl⟩) <;> rw [utf8_append, List.append_assoc]

end Lib
