import SynchrotronCD.Git.Certificates

/-!
# Hosts and ports as texts

A host key is recorded under `host` or `[host]:port`, and the host libgit2 presents is
split at what looks like a port. A host without brackets can end in what looks like one,
as IPv6 literals do.

`host_form_round_trip_iff`: splitting the recorded form yields host and port again exactly
if the port is written out, or the host does not end in a colon and a port number.
-/

namespace SynchrotronCD.Git

open Lib

/-! ## Hosts -/

/-- Domain names and the literals of IPv4 and IPv6 addresses are made of these. -/
def isHostChar (c : Char) : Bool := c.isAlphanum || c ∈ ['-', '.', '_', ':', '%']

structure Host where
  text : String
  chars : ∀ c ∈ text.toList, isHostChar c = true

theorem Host.notMem (host : Host) {c : Char} (h : isHostChar c = false) : c ∉ host.text.toList :=
  fun hc => Bool.noConfusion (h.symm.trans (host.chars c hc))

/-- What follows the last colon is the decimal number of a port. -/
def EndsInPort (cs : List Char) : Prop :=
  ∃ front ds, cs = front ++ ':' :: ds ∧ ds ≠ [] ∧ (∀ c ∈ ds, c.isDigit = true)
    ∧ Nat.ofDigitChars 10 ds 0 < 65536

/-! ## The parsers -/

theorem digits_eq_some {cs : List Char} {n : Nat} : digits cs = some n
    ↔ cs ≠ [] ∧ (∀ c ∈ cs, c.isDigit = true) ∧ Nat.ofDigitChars 10 cs 0 = n := by
  unfold digits
  have hvalue : cs.foldl (fun n c => 10 * n + (c.toNat - 48)) 0 = Nat.ofDigitChars 10 cs 0 :=
    Nat.ofDigitChars_eq_foldl.symm
  rw [hvalue]
  by_cases hne : cs = []
  · simp [hne]
  · by_cases hall : ∀ c ∈ cs, c.isDigit = true
    · rw [if_neg (by simp [hne, List.all_eq_true.mpr hall]), Option.some.injEq]
      exact ⟨fun h => ⟨hne, hall, h⟩, fun h => h.2.2⟩
    · rw [if_pos (by simpa [hne] using hall)]
      exact ⟨fun h => absurd h (by simp), fun h => absurd h.2.1 hall⟩

/-- Without a plus sign, a port is digits. -/
theorem parseU16_eq {cs : List Char} (hplus : '+' ∉ cs) :
    parseU16 cs = ((digits cs).filter fun n => decide (n < 65536)).map UInt16.ofNat := by
  unfold parseU16
  split
  · exact absurd List.mem_cons_self hplus
  · rfl

theorem parseU16_eq_none {cs : List Char} (hplus : '+' ∉ cs) : parseU16 cs = none
    ↔ ¬ (cs ≠ [] ∧ (∀ c ∈ cs, c.isDigit = true) ∧ Nat.ofDigitChars 10 cs 0 < 65536) := by
  rw [parseU16_eq hplus, Option.map_eq_none_iff, Option.filter_eq_none_iff]
  refine ⟨fun h hex => ?_, fun h n hn => ?_⟩
  · obtain ⟨hne, hall, hlt⟩ := hex
    exact h _ (digits_eq_some.mpr ⟨hne, hall, rfl⟩) (decide_eq_true hlt)
  · obtain ⟨hne, hall, rfl⟩ := digits_eq_some.mp hn
    exact fun hlt => h ⟨hne, hall, of_decide_eq_true hlt⟩

theorem parseU16_toString (port : UInt16) : parseU16 (toString port.toNat).toList = some port := by
  have htext : (toString port.toNat).toList = Nat.toDigits 10 port.toNat := by simp
  have hdigits : digits (Nat.toDigits 10 port.toNat) = some port.toNat :=
    digits_eq_some.mpr ⟨Nat.toDigits_ne_nil, fun c hc => Value.isDigit_toDigits hc,
      Nat.ofDigitChars_ten_toDigits⟩
  have hplus : '+' ∉ Nat.toDigits 10 port.toNat := fun h =>
    absurd (Value.isDigit_toDigits h) (by decide)
  have hrange : decide (port.toNat < 65536) = true := decide_eq_true port.toNat_lt
  rw [htext, parseU16_eq hplus, hdigits, Option.filter_some, if_pos hrange, Option.map_some,
    UInt16.ofNat_toNat]

theorem rsplitOnce_append {sep : Char} {r : List Char} (h : sep ∉ r) (l : List Char) :
    rsplitOnce sep (l ++ sep :: r) = some (l, r) := by
  have hr : ∀ c ∈ r.reverse, (decide (c ≠ sep)) = true := fun c hc =>
    decide_eq_true fun he => h (he ▸ List.mem_reverse.mp hc)
  have hrev : (l ++ sep :: r).reverse = r.reverse ++ sep :: l.reverse := by simp
  unfold rsplitOnce
  rw [if_pos (List.mem_append_right _ List.mem_cons_self), hrev,
    List.dropWhile_append_of_pos hr, List.takeWhile_append_of_pos hr,
    List.dropWhile_cons_of_neg (by simp), List.takeWhile_cons_of_neg (by simp)]
  simp

theorem rsplitOnce_of_notMem {sep : Char} {cs : List Char} (h : sep ∉ cs) :
    rsplitOnce sep cs = none := by
  unfold rsplitOnce
  rw [if_neg h]

/-- What stands before and after the last occurrence. -/
theorem exists_last_of_mem {sep : Char} {cs : List Char} (h : sep ∈ cs) :
    ∃ l r, cs = l ++ sep :: r ∧ sep ∉ r := by
  obtain ⟨r, l, hrev, hr⟩ := List.eq_append_cons_of_mem (List.mem_reverse.mpr h)
  refine ⟨l.reverse, r.reverse, ?_, fun hc => hr (List.mem_reverse.mp hc)⟩
  rw [← List.reverse_reverse cs, hrev]
  simp

theorem splitOnceAt_append {h : List Char} (hb : ']' ∉ h) (r : List Char) :
    splitOnceAt "]:".toList (h ++ ']' :: ':' :: r) = some (h, r) := by
  induction h with
  | nil => rfl
  | cons c h ih =>
      obtain ⟨hc, hh⟩ := not_or.mp (mt List.mem_cons.mpr hb)
      rw [List.cons_append, splitOnceAt, if_neg, ih hh]
      · rfl
      · rintro ⟨t, ht⟩
        exact hc (List.cons.inj ht).1

/-! ## Splitting the recorded form -/

theorem endsInPort_append {front ds : List Char} (hcolon : ':' ∉ ds) :
    EndsInPort (front ++ ':' :: ds)
      ↔ ds ≠ [] ∧ (∀ c ∈ ds, c.isDigit = true) ∧ Nat.ofDigitChars 10 ds 0 < 65536 := by
  refine ⟨fun h => ?_, fun h => ⟨front, ds, rfl, h⟩⟩
  obtain ⟨front', ds', heq, hport⟩ := h
  have hcolon' : ':' ∉ ds' := fun hc => absurd (hport.2.1 _ hc) (by decide)
  have hsplit : some (front, ds) = some (front', ds') := by
    rw [← rsplitOnce_append hcolon front, heq, rsplitOnce_append hcolon' front']
  obtain ⟨-, rfl⟩ := Prod.mk.inj (Option.some.inj hsplit)
  exact hport

theorem splitHostPort_bracketed (host : Host) (port : UInt16) :
    splitHostPort ("[" ++ host.text ++ "]:" ++ toString port.toNat) = (host.text, port) := by
  have hform : ("[" ++ host.text ++ "]:" ++ toString port.toNat).toList
      = '[' :: (host.text.toList ++ ']' :: ':' :: (toString port.toNat).toList) := by
    simp
  have hstrip : stripPrefix "[" ("[" ++ host.text ++ "]:" ++ toString port.toNat)
      = some (String.ofList (host.text.toList ++ ']' :: ':' :: (toString port.toNat).toList)) := by
    unfold stripPrefix
    rw [hform, if_pos ⟨_, rfl⟩]
    rfl
  unfold splitHostPort
  simp only [hstrip, Option.bind_eq_bind, Option.bind_some, String.toList_ofList]
  rw [splitOnceAt_append (host.notMem (by decide))]
  simp only [Option.bind_some, parseU16_toString, String.ofList_toList]
  rfl

/-- Without a bracket, the last colon decides. -/
theorem splitHostPort_plain {s : String} (h : '[' ∉ s.toList) : splitHostPort s
    = (((rsplitOnce ':' s.toList).bind fun hp =>
        (parseU16 hp.2).map fun port => (String.ofList hp.1, port)).getD (s, 22)) := by
  have hstrip : stripPrefix "[" s = none := by
    unfold stripPrefix
    rw [if_neg]
    rintro ⟨t, ht⟩
    exact h (ht ▸ List.mem_cons_self)
  unfold splitHostPort
  rw [hstrip]
  cases rsplitOnce ':' s.toList with
  | none => rfl
  | some hp => cases hparse : parseU16 hp.2 <;> simp [hparse]

/-- **Host and port are read back, exactly if the port is written out or the host does not end in
what looks like one.** -/
theorem host_form_round_trip_iff (host : Host) (port : UInt16) :
    splitHostPort (canonicalHostForm host.text port) = (host.text, port)
      ↔ port ≠ 22 ∨ ¬ EndsInPort host.text.toList := by
  unfold canonicalHostForm
  by_cases hport : port = 22
  · rw [if_pos hport, splitHostPort_plain (host.notMem (by decide)), hport,
      or_iff_right (fun h => h rfl)]
    by_cases hcolon : ':' ∈ host.text.toList
    · obtain ⟨l, r, heq, hr⟩ := exists_last_of_mem hcolon
      have hplus : '+' ∉ r := fun h => host.notMem (c := '+') (by decide)
        (heq ▸ List.mem_append_right _ (List.mem_cons_of_mem _ h))
      rw [heq, endsInPort_append hr, ← parseU16_eq_none hplus, rsplitOnce_append hr,
        Option.bind_some]
      cases hparse : parseU16 r with
      | none => exact iff_of_true rfl rfl
      | some q =>
          refine iff_of_false (fun h => ?_) (by simp)
          -- the host is cut short
          have hcut : String.ofList l = host.text := (Prod.mk.inj h).1
          have hlist := congrArg String.toList hcut
          rw [String.toList_ofList, heq] at hlist
          exact absurd (congrArg List.length hlist) (by simp)
    · rw [rsplitOnce_of_notMem hcolon]
      refine iff_of_true rfl ?_
      rintro ⟨front, ds, heq, -⟩
      exact hcolon (heq ▸ List.mem_append_right _ List.mem_cons_self)
  · rw [if_neg hport, splitHostPort_bracketed]
    exact iff_of_true rfl (Or.inl hport)

/-- An address of IPv6. -/
def ipv6Literal : Host := ⟨"2001:db8::1", List.all_eq_true.mp (by decide)⟩

/-- It is read back cut at the default port. -/
theorem ipv6_literal_is_cut :
    splitHostPort (canonicalHostForm ipv6Literal.text 22) ≠ (ipv6Literal.text, 22) := by decide

end SynchrotronCD.Git
