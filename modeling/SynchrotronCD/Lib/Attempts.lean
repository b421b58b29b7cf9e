import Mathlib.Tactic.Common

/-!
# Bounded attempts

A loop over a range of numbers whose body goes on with a new state, or returns. Where
each number tells by itself whether the body returns, the first that does decides the
loop: the state before it, or at the end, is that of an invariant which the other
bodies keep (`forRange_rule`).
-/

namespace Lib

variable {σ ρ : Type*}

/-- What the body of a loop does. -/
inductive Flow (σ ρ : Type*) where
  | next (s : σ)
  | ret (r : ρ)
deriving DecidableEq, Repr

/-- A loop over the `n` numbers from `i` on. -/
def forRange (body : Nat → σ → Flow σ ρ) (i : Nat) : Nat → σ → Flow σ ρ
  | 0, s => .next s
  | n + 1, s =>
    match body i s with
    | .next s => forRange body (i + 1) n s
    | .ret r => .ret r

/-- The first of the `n` numbers from `start` on that ends a loop. -/
def firstEnd (ends : Nat → Bool) (start n : Nat) : Option Nat := (List.range' start n).find? ends

theorem firstEnd_eq_some {ends : Nat → Bool} {start n i : Nat} : firstEnd ends start n = some i ↔
    ends i = true ∧ (start ≤ i ∧ i < start + n) ∧ ∀ j, start ≤ j → j < i → ends j = false := by
  unfold firstEnd
  simp

theorem firstEnd_eq_none {ends : Nat → Bool} {start n : Nat} :
    firstEnd ends start n = none ↔ ∀ i, start ≤ i → i < start + n → ends i = false := by
  unfold firstEnd
  simp

theorem firstEnd_succ (ends : Nat → Bool) (start n : Nat) : firstEnd ends start (n + 1) =
    if ends start then some start else firstEnd ends (start + 1) n := by
  unfold firstEnd
  rw [List.range'_succ, List.find?_cons]
  cases ends start <;> rfl

/--
**The rule of a loop with a return.**

The bodies whose number does not end the loop keep `I`; one whose number does returns
something that meets `Q`.
-/
theorem forRange_rule {body : Nat → σ → Flow σ ρ} {ends : Nat → Bool} {I : Nat → σ → Prop}
    {Q : Nat → ρ → Prop} {start n : Nat} {s : σ}
    (hnext : ∀ i s, start ≤ i → i < start + n → ends i = false → I i s →
      ∃ s', body i s = .next s' ∧ I (i + 1) s')
    (hret : ∀ i s, start ≤ i → i < start + n → ends i = true → I i s →
      ∃ r, body i s = .ret r ∧ Q i r)
    (h : I start s) :
    (∃ i r, firstEnd ends start n = some i ∧ forRange body start n s = .ret r ∧ Q i r) ∨
      (∃ s', firstEnd ends start n = none ∧ forRange body start n s = .next s' ∧ I (start + n) s') := by
  induction n generalizing start s with
  | zero => exact .inr ⟨s, rfl, rfl, h⟩
  | succ n ih =>
      rw [firstEnd_succ]
      cases hends : ends start with
      | true =>
          obtain ⟨r, hbody, hr⟩ := hret start s (Nat.le_refl _) (by omega) hends h
          refine .inl ⟨start, r, rfl, ?_, hr⟩
          rw [forRange, hbody]
      | false =>
          obtain ⟨s', hbody, hs'⟩ := hnext start s (Nat.le_refl _) (by omega) hends h
          have hrest := ih (fun i s hi hlt => hnext i s (by omega) (by omega))
            (fun i s hi hlt => hret i s (by omega) (by omega)) hs'
          have hloop : forRange body start (n + 1) s = forRange body (start + 1) n s' := by
            rw [forRange, hbody]
          rw [hloop, if_neg (by simp), show start + (n + 1) = start + 1 + n by omega]
          exact hrest

end Lib
