import Mathlib.Algebra.Order.Ring.Int

/-!
# Broadcast channels

A broadcast channel keeps the latest values, as many as its capacity, and each of its
subscribers has a position. A subscriber that has been overrun — the value at its
position is gone — is told so once, by an error, and stands then at the oldest value
that is kept.

`unread` is what a subscriber can still read: neither the error nor emptiness changes it,
and a value that is read is its first (`read_cases`).
-/

namespace Lib

/-- A channel that has subscribers. `dropped` values are gone, `kept` are the latest. -/
structure Channel (T : Type*) where
  capacity : Nat
  dropped : Nat
  kept : List T
  closed : Bool
  positive : 0 < capacity
  bounded : kept.length ≤ capacity
  full : 0 < dropped → kept.length = capacity

variable {T : Type*}

namespace Channel

/-- `broadcast::channel` panics where this is `none`. -/
def new (capacity : Nat) : Option (Channel T) :=
  if 0 < capacity ∧ capacity < 2 ^ 63 then
    some ⟨capacity.nextPowerOfTwo, 0, [], false,
      Nat.pos_of_isPowerOfTwo (Nat.isPowerOfTwo_nextPowerOfTwo capacity), Nat.zero_le _, nofun⟩
  else none

/-- The position after the latest value. -/
def tail (c : Channel T) : Nat := c.dropped + c.kept.length

/-- A full channel drops its oldest value for the new one. -/
def send (c : Channel T) (v : T) : Channel T :=
  if h : c.kept.length < c.capacity then
    { c with
      kept := c.kept ++ [v]
      bounded := by rw [List.length_append, List.length_singleton]; exact h
      full := fun hd => absurd (c.full hd) (Nat.ne_of_lt h) }
  else
    { c with
      dropped := c.dropped + 1
      kept := c.kept.tail ++ [v]
      bounded := by
        have := c.bounded
        have := c.positive
        simp only [List.length_append, List.length_tail, List.length_singleton]
        omega
      full := fun _ => by
        have := c.bounded
        have := c.positive
        simp only [List.length_append, List.length_tail, List.length_singleton]
        omega }

/-- The senders are gone. -/
def close (c : Channel T) : Channel T := { c with closed := true }

end Channel

/-- A subscriber of a channel, at a position. -/
structure Subscriber (T : Type*) where
  channel : Channel T
  next : Nat
  arrived : next ≤ channel.tail

inductive ReadError where
  | empty
  | closed
  | lagged (missed : Nat)
deriving DecidableEq, Repr

/-- A new subscriber reads what is sent from now on. -/
def Channel.subscribe (c : Channel T) : Subscriber T := ⟨c, c.tail, Nat.le_refl _⟩

namespace Subscriber

theorem tail_send (c : Channel T) (v : T) : (c.send v).tail = c.tail + 1 := by
  unfold Channel.send Channel.tail
  split
  · simp only [List.length_append, List.length_singleton]
    omega
  · have := c.bounded
    have := c.positive
    simp only [List.length_append, List.length_tail, List.length_singleton]
    omega

def send (s : Subscriber T) (v : T) : Subscriber T :=
  { s with
    channel := s.channel.send v
    arrived := by rw [tail_send]; exact Nat.le_succ_of_le s.arrived }

def close (s : Subscriber T) : Subscriber T := { s with channel := s.channel.close }

/-- The value at the position is gone. -/
def Overrun (s : Subscriber T) : Prop := s.next < s.channel.dropped

instance (s : Subscriber T) : Decidable s.Overrun := inferInstanceAs (Decidable (_ < _))

/-- The values that can still be read, the oldest first. -/
def unread (s : Subscriber T) : List T := s.channel.kept.drop (s.next - s.channel.dropped)

def read (s : Subscriber T) : Except ReadError T × Subscriber T :=
  if s.Overrun then
    (.error (.lagged (s.channel.dropped - s.next)),
      { s with next := s.channel.dropped, arrived := Nat.le_add_right _ _ })
  else
    match h : s.channel.kept[s.next - s.channel.dropped]? with
    | some v => (.ok v, { s with
        next := s.next + 1
        arrived := by
          have := (List.getElem?_eq_some_iff.mp h).1
          unfold Channel.tail
          omega })
    | none => (.error (if s.channel.closed then .closed else .empty), s)

/-- There is something to read for a subscriber that was overrun. -/
theorem Overrun.unread_ne_nil {s : Subscriber T} (h : s.Overrun) : s.unread ≠ [] := by
  have hfull := s.channel.full (Nat.lt_of_le_of_lt (Nat.zero_le _) h)
  have hpositive := s.channel.positive
  intro hnil
  have := List.drop_eq_nil_iff.mp hnil
  unfold Overrun at h
  omega

/-- **What a read does**: it reports an overrun, reads the first value, or finds none. -/
theorem read_cases (s : Subscriber T) :
    (s.Overrun ∧ ∃ s', s.read = (.error (.lagged (s.channel.dropped - s.next)), s')
        ∧ s'.channel = s.channel ∧ ¬ s'.Overrun ∧ s'.unread = s.unread)
      ∨ (¬ s.Overrun ∧ ∃ v s', s.read = (.ok v, s') ∧ s'.channel = s.channel ∧ ¬ s'.Overrun
        ∧ s.unread = v :: s'.unread)
      ∨ (¬ s.Overrun ∧ s.unread = []
        ∧ s.read = (.error (if s.channel.closed then .closed else .empty), s)) := by
  by_cases hover : s.Overrun
  · refine Or.inl ⟨hover, _, if_pos hover, rfl, Nat.lt_irrefl _, ?_⟩
    unfold unread
    dsimp only
    rw [Nat.sub_self, Nat.sub_eq_zero_of_le (Nat.le_of_lt hover)]
  · refine Or.inr ?_
    have hle : s.channel.dropped ≤ s.next := Nat.not_lt.mp hover
    rw [read, if_neg hover]
    split
    · rename_i v hv
      refine Or.inl ⟨hover, v, _, rfl, rfl, Nat.not_lt.mpr (Nat.le_succ_of_le hle), ?_⟩
      obtain ⟨hlt, rfl⟩ := List.getElem?_eq_some_iff.mp hv
      unfold unread
      dsimp only
      rw [List.drop_eq_getElem_cons hlt, Nat.sub_add_comm hle]
    · rename_i hv
      exact Or.inr ⟨hover, List.drop_eq_nil_iff.mpr (List.getElem?_eq_none_iff.mp hv), rfl⟩

end Subscriber

end Lib
