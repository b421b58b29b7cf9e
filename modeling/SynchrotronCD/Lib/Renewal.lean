import Mathlib.Data.List.Induction
import SynchrotronCD.Lib.Runs

/-!
# A value renewed when it is stale

A cache holds at most one value. A call that finds a fresh one gets it; any other call
renews the value, which can fail and then leaves what was held. Whatever is held was
obtained by one of the calls, and every call since then was served from it or failed
(`heldAfter_origin`).
-/

namespace Lib

/-- When a value still serves a call, and what a call that it does not serve obtains. -/
structure Renewal (τ ι ε : Type*) where
  fresh : τ → ι → Bool
  renew : ι → Except ε τ

namespace Renewal

variable {τ ι ε : Type*} (r : Renewal τ ι ε)

/-- A call: what it returns, and what is held after it. -/
def get (held : Option τ) (i : ι) : Except ε τ × Option τ :=
  match held.filter (r.fresh · i) with
  | some t => (.ok t, held)
  | none =>
    match r.renew i with
    | .ok t => (.ok t, some t)
    | .error e => (.error e, held)

/-- The value held after these calls, where there was none at first. -/
def heldAfter (calls : List ι) : Option τ := exec (fun held i => (r.get held i).2) none calls

@[simp] theorem heldAfter_nil : r.heldAfter [] = none := rfl

theorem heldAfter_snoc (calls : List ι) (i : ι) :
    r.heldAfter (calls ++ [i]) = (r.get (r.heldAfter calls) i).2 := exec_snoc _ _ _

variable {r}

theorem get_served {held : Option τ} {i : ι} {t : τ} (hheld : held = some t)
    (hfresh : r.fresh t i = true) : r.get held i = (.ok t, held) := by
  subst hheld
  unfold get
  rw [Option.filter_some, if_pos hfresh]

theorem get_renewed {held : Option τ} {i : ι} (hstale : ∀ t ∈ held, r.fresh t i = false) :
    r.get held i = match r.renew i with
      | .ok t => (.ok t, some t)
      | .error e => (.error e, held) := by
  unfold get
  rw [Option.filter_eq_none_iff.mpr fun t ht => by simp [hstale t ht]]

/-- A call is served, or nothing held is fresh. -/
theorem served_or_stale (r : Renewal τ ι ε) (held : Option τ) (i : ι) :
    (∃ t, held = some t ∧ r.fresh t i = true) ∨ ∀ t ∈ held, r.fresh t i = false := by
  cases held with
  | none => exact .inr nofun
  | some t =>
      cases hfresh : r.fresh t i with
      | true => exact .inl ⟨t, rfl, hfresh⟩
      | false =>
          refine .inr fun t' ht => ?_
          obtain rfl : t = t' := Option.some.inj ht
          exact hfresh

/-- A call that obtains nothing leaves what is held. -/
theorem get_error {held : Option τ} {i : ι} {e : ε} (h : (r.get held i).1 = .error e) :
    (r.get held i).2 = held ∧ r.renew i = .error e ∧ ∀ t ∈ held, r.fresh t i = false := by
  rcases served_or_stale r held i with ⟨t, hheld, hfresh⟩ | hstale
  · rw [get_served hheld hfresh] at h
    cases h
  · rw [get_renewed hstale] at h ⊢
    cases hrenew : r.renew i with
    | ok t =>
        rw [hrenew] at h
        cases h
    | error e' =>
        rw [hrenew] at h
        exact ⟨rfl, congrArg Except.error (Except.error.inj h), hstale⟩

/-- A value that is returned is held: it was before, and is fresh, or it is new. -/
theorem get_ok {held : Option τ} {i : ι} {t : τ} (h : (r.get held i).1 = .ok t) :
    (r.get held i).2 = some t ∧ ((held = some t ∧ r.fresh t i = true) ∨
      (r.renew i = .ok t ∧ ∀ t' ∈ held, r.fresh t' i = false)) := by
  rcases served_or_stale r held i with ⟨t', hheld, hfresh⟩ | hstale
  · rw [get_served hheld hfresh] at h ⊢
    obtain rfl := Except.ok.inj h
    exact ⟨hheld, .inl ⟨hheld, hfresh⟩⟩
  · rw [get_renewed hstale] at h ⊢
    cases hrenew : r.renew i with
    | ok t' =>
        rw [hrenew] at h
        obtain rfl := Except.ok.inj h
        exact ⟨rfl, .inr ⟨rfl, hstale⟩⟩
    | error e =>
        rw [hrenew] at h
        cases h

/-- One of the calls obtained the value, and every call since was served from it or failed. -/
structure Obtained (r : Renewal τ ι ε) (t : τ) (calls : List ι) (i : ι) (since : List ι) :
    Prop where
  renew : r.renew i = .ok t
  stale : ∀ t' ∈ r.heldAfter calls, r.fresh t' i = false
  since : ∀ j ∈ since, r.fresh t j = true ∨ ∃ e, r.renew j = .error e

/-- **What is held was obtained by a call.** -/
theorem heldAfter_origin {calls : List ι} {t : τ} (h : r.heldAfter calls = some t) :
    ∃ before i since, calls = before ++ i :: since ∧ r.Obtained t before i since := by
  induction calls using List.reverseRecOn with
  | nil => cases h
  | append_singleton calls j ih =>
      rw [heldAfter_snoc] at h
      cases hget : (r.get (r.heldAfter calls) j).1 with
      | ok t' =>
          obtain ⟨hheld, hserved | hnew⟩ := get_ok hget
          · obtain rfl : t' = t := Option.some.inj (hheld.symm.trans h)
            obtain ⟨before, i, since, rfl, ho⟩ := ih hserved.1
            refine ⟨before, i, since ++ [j], by simp, ho.renew, ho.stale, fun k hk => ?_⟩
            rcases List.mem_append.mp hk with hk | hk
            · exact ho.since k hk
            · obtain rfl := List.mem_singleton.mp hk
              exact .inl hserved.2
          · obtain rfl : t' = t := Option.some.inj (hheld.symm.trans h)
            exact ⟨calls, j, [], rfl, hnew.1, hnew.2, nofun⟩
      | error e =>
          obtain ⟨hheld, hrenew, -⟩ := get_error hget
          obtain ⟨before, i, since, rfl, ho⟩ := ih (hheld.symm.trans h)
          refine ⟨before, i, since ++ [j], by simp, ho.renew, ho.stale, fun k hk => ?_⟩
          rcases List.mem_append.mp hk with hk | hk
          · exact ho.since k hk
          · obtain rfl := List.mem_singleton.mp hk
            exact .inr ⟨e, hrenew⟩

end Renewal

end Lib
