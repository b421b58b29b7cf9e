import Mathlib.Data.List.Basic
import Mathlib.Data.UInt

/-!
# Base64

The standard alphabet with padding, three bytes to four characters. A decoder may
be lenient about what stands for nothing; this one is not: the padding has to be
there, and the bits that no byte takes have to be zero.
-/

namespace Lib.Base64

/-- The character for six bits. -/
def digit (n : Nat) : Char :=
  if n < 26 then Char.ofNat (65 + n)
  else if n < 52 then Char.ofNat (71 + n)
  else if n < 62 then Char.ofNat (n - 4)
  else if n = 62 then '+'
  else '/'

/-- The six bits of a character. -/
def value (c : Char) : Option Nat :=
  if 'A' ≤ c ∧ c ≤ 'Z' then some (c.toNat - 65)
  else if 'a' ≤ c ∧ c ≤ 'z' then some (c.toNat - 71)
  else if '0' ≤ c ∧ c ≤ '9' then some (c.toNat + 4)
  else if c = '+' then some 62
  else if c = '/' then some 63
  else none

def encode : List UInt8 → List Char
  | [] => []
  | [a] => [digit (a.toNat / 4), digit (a.toNat % 4 * 16), '=', '=']
  | [a, b] =>
    [digit (a.toNat / 4), digit (a.toNat % 4 * 16 + b.toNat / 16), digit (b.toNat % 16 * 4), '=']
  | a :: b :: c :: rest =>
    digit (a.toNat / 4) :: digit (a.toNat % 4 * 16 + b.toNat / 16)
      :: digit (b.toNat % 16 * 4 + c.toNat / 64) :: digit (c.toNat % 64) :: encode rest

/-- The last four characters, of which some may be padding. -/
def decodeLast (w x y : Char) : Option (List UInt8) :=
  if y = '=' then do
    let a ← value w
    let b ← value x
    if b % 16 = 0 then some [UInt8.ofNat (4 * a + b / 16)] else none
  else do
    let a ← value w
    let b ← value x
    let c ← value y
    if c % 4 = 0 then some [UInt8.ofNat (4 * a + b / 16), UInt8.ofNat (b % 16 * 16 + c / 4)]
    else none

def decode : List Char → Option (List UInt8)
  | [] => some []
  | w :: x :: y :: z :: rest =>
    if z = '=' ∧ rest = [] then decodeLast w x y
    else do
      let a ← value w
      let b ← value x
      let c ← value y
      let d ← value z
      let bytes ← decode rest
      return UInt8.ofNat (4 * a + b / 16) :: UInt8.ofNat (b % 16 * 16 + c / 4)
        :: UInt8.ofNat (c % 4 * 64 + d) :: bytes
  | _ => none

/-! ## The alphabet -/

theorem value_digit {n : Nat} (h : n < 64) : value (digit n) = some n := by
  have hall : ∀ n : Fin 64, value (digit n) = some n.val := by decide
  exact hall ⟨n, h⟩

theorem digit_ne_pad {n : Nat} (h : n < 64) : digit n ≠ '=' := by
  have hall : ∀ n : Fin 64, digit n ≠ '=' := by decide
  exact hall ⟨n, h⟩

/-- What an encoding is written with. -/
theorem mem_encode {bytes : List UInt8} {c : Char} (h : c ∈ encode bytes) :
    c = '=' ∨ ∃ n < 64, c = digit n := by
  induction bytes using encode.induct with
  | case1 => simp [encode] at h
  | case2 a =>
      have := a.toNat_lt
      simp only [encode, List.mem_cons, List.not_mem_nil, or_false] at h
      rcases h with rfl | rfl | rfl | rfl
      · exact Or.inr ⟨_, by omega, rfl⟩
      · exact Or.inr ⟨_, by omega, rfl⟩
      · exact Or.inl rfl
      · exact Or.inl rfl
  | case3 a b =>
      have := a.toNat_lt
      have := b.toNat_lt
      simp only [encode, List.mem_cons, List.not_mem_nil, or_false] at h
      rcases h with rfl | rfl | rfl | rfl
      · exact Or.inr ⟨_, by omega, rfl⟩
      · exact Or.inr ⟨_, by omega, rfl⟩
      · exact Or.inr ⟨_, by omega, rfl⟩
      · exact Or.inl rfl
  | case4 a b c rest ih =>
      have := a.toNat_lt
      have := b.toNat_lt
      have := c.toNat_lt
      simp only [encode, List.mem_cons] at h
      rcases h with rfl | rfl | rfl | rfl | h
      · exact Or.inr ⟨_, by omega, rfl⟩
      · exact Or.inr ⟨_, by omega, rfl⟩
      · exact Or.inr ⟨_, by omega, rfl⟩
      · exact Or.inr ⟨_, by omega, rfl⟩
      · exact ih h

theorem encode_ne_nil {bytes : List UInt8} (h : bytes ≠ []) : encode bytes ≠ [] := by
  match bytes, h with
  | [a], _ => simp [encode]
  | [a, b], _ => simp [encode]
  | a :: b :: c :: rest, _ => simp [encode]

/-! ## The round trip -/

theorem ofNat_of_eq {a : UInt8} {n : Nat} (h : n = a.toNat) : UInt8.ofNat n = a := by
  rw [h, UInt8.ofNat_toNat]

/-- **What is encoded decodes to itself.** -/
theorem decode_encode (bytes : List UInt8) : decode (encode bytes) = some bytes := by
  induction bytes using encode.induct with
  | case1 => rfl
  | case2 a =>
      have := a.toNat_lt
      simp only [encode, decode, decodeLast, and_self, if_true, bind, Option.bind]
      rw [value_digit (by omega), value_digit (by omega)]
      dsimp only
      rw [if_pos (by omega), ofNat_of_eq (a := a) (by omega)]
  | case3 a b =>
      have := a.toNat_lt
      have := b.toNat_lt
      simp only [encode, decode, decodeLast, and_self, if_true, bind, Option.bind]
      rw [if_neg (digit_ne_pad (by omega)), value_digit (by omega), value_digit (by omega),
        value_digit (by omega)]
      dsimp only
      rw [if_pos (by omega), ofNat_of_eq (a := a) (by omega), ofNat_of_eq (a := b) (by omega)]
  | case4 a b c rest ih =>
      have := a.toNat_lt
      have := b.toNat_lt
      have := c.toNat_lt
      have hpad : ¬ (digit (c.toNat % 64) = '=' ∧ encode rest = []) := fun h =>
        digit_ne_pad (by omega) h.1
      simp only [encode, decode, bind, Option.bind, pure]
      rw [if_neg hpad, value_digit (by omega), value_digit (by omega), value_digit (by omega),
        value_digit (by omega), ih]
      dsimp only
      rw [ofNat_of_eq (a := a) (by omega), ofNat_of_eq (a := b) (by omega),
        ofNat_of_eq (a := c) (by omega)]

end Lib.Base64
