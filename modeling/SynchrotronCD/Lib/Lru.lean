import Mathlib.Data.List.Nodup
import SynchrotronCD.Lib.Fronts

/-!
# Least-recently-used lists

A bounded map that keeps its entries in the order of their last use, most recent
first. A use moves an entry to the front; a push into a full list drops the entry at
the back. No key is there twice, and there are never more entries than the capacity.
-/

namespace Lib

structure Lru (K V : Type) where
  cap : Nat
  /-- Most recently used first. -/
  entries : List (K × V)
  pos : 0 < cap
  nodup : (entries.map Prod.fst).Nodup
  bounded : entries.length ≤ cap

namespace Lru

variable {K V : Type}

def new (cap : Nat) (pos : 0 < cap) : Lru K V := ⟨cap, [], pos, List.nodup_nil, by simp⟩

def len (c : Lru K V) : Nat := c.entries.length

/-- The keys, most recently used first. -/
def keys (c : Lru K V) : List K := c.entries.map Prod.fst

/-- The list keeps the entries in `es`, which are some of its own. -/
def keep (c : Lru K V) (es : List (K × V)) (h : es.Sublist c.entries) : Lru K V :=
  { c with
    entries := es
    nodup := (h.map Prod.fst).nodup c.nodup
    bounded := Nat.le_trans h.length_le c.bounded }

/-- Remove the least recently used entry. -/
def popLru (c : Lru K V) : Lru K V × Option (K × V) :=
  (c.keep c.entries.dropLast (List.dropLast_sublist _), c.entries.getLast?)

def clear (c : Lru K V) : Lru K V := c.keep [] (List.nil_sublist _)

@[simp] theorem popLru_entries (c : Lru K V) : c.popLru.1.entries = c.entries.dropLast := rfl

@[simp] theorem popLru_snd (c : Lru K V) : c.popLru.2 = c.entries.getLast? := rfl

theorem len_popLru (c : Lru K V) : c.popLru.1.len = c.len - 1 := by
  simp [len]

variable [DecidableEq K]

/-- The value under a key. -/
def peek (c : Lru K V) (k : K) : Option V := (c.entries.find? fun e => e.1 = k).map Prod.snd

/-- The entries of the other keys. -/
def others (c : Lru K V) (k : K) : List (K × V) := c.entries.filter fun e => e.1 ≠ k

theorem others_sublist (c : Lru K V) (k : K) : (c.others k).Sublist c.entries :=
  List.filter_sublist

theorem others_notMem (c : Lru K V) (k : K) : k ∉ (c.others k).map Prod.fst := by
  simp [others]

theorem peek_isSome {c : Lru K V} {k : K} : (c.peek k).isSome = true ↔ k ∈ c.keys := by
  simp [peek, keys, List.mem_map]

theorem length_others_lt {c : Lru K V} {k : K} (h : k ∈ c.keys) : (c.others k).length < c.len := by
  obtain ⟨e, he, rfl⟩ := List.mem_map.mp h
  exact List.length_filter_lt_length_iff_exists.mpr ⟨e, he, by simp⟩

/-- Where a key has an entry, there is room for one beside the others. -/
theorem room_of_peek {c : Lru K V} {k : K} {v : V} (h : c.peek k = some v) :
    (c.others k).length < c.cap := by
  have hkey : k ∈ c.keys := peek_isSome.mp (by rw [h]; rfl)
  have hlt := length_others_lt hkey
  have hle := c.bounded
  unfold len at hlt
  omega

theorem length_others_le (c : Lru K V) (k : K) : (c.others k).length ≤ c.len :=
  (c.others_sublist k).length_le

/-- There is room for one beside all the others but the last. -/
theorem room_of_dropLast (c : Lru K V) (k : K) : (c.others k).dropLast.length < c.cap := by
  have hle := c.length_others_le k
  have hbound := c.bounded
  have hpos := c.pos
  rw [List.length_dropLast]
  unfold len at hle
  omega

/-- An entry in front of some of the entries of other keys, if there is room for it. -/
def inFront (c : Lru K V) (k : K) (v : V) (es : List (K × V)) (h : es.Sublist (c.others k))
    (hroom : es.length < c.cap) : Lru K V :=
  { c with
    entries := (k, v) :: es
    nodup := List.nodup_cons.mpr ⟨fun hk => c.others_notMem k ((h.map Prod.fst).subset hk),
      ((h.trans (c.others_sublist k)).map Prod.fst).nodup c.nodup⟩
    bounded := hroom }

/-- Look a key up and make it the most recently used one. -/
def get (c : Lru K V) (k : K) : Lru K V × Option V :=
  match h : c.peek k with
  | some v => (c.inFront k v (c.others k) (List.Sublist.refl _) (room_of_peek h), some v)
  | none => (c, none)

/-- Remove a key. -/
def pop (c : Lru K V) (k : K) : Lru K V × Option V :=
  (c.keep (c.others k) (c.others_sublist k), c.peek k)

/-- Put a value under a key, as the most recently used one. What had to go for it is returned:
the entry of the key, or the last one of a full list. -/
def push (c : Lru K V) (k : K) (v : V) : Lru K V × Option (K × V) :=
  match h : c.peek k with
  | some old =>
    (c.inFront k v (c.others k) (List.Sublist.refl _) (room_of_peek h), some (k, old))
  | none =>
    if hroom : c.len < c.cap then
      (c.inFront k v (c.others k) (List.Sublist.refl _)
        (Nat.lt_of_le_of_lt (c.length_others_le k) hroom), none)
    else
      (c.inFront k v (c.others k).dropLast (List.dropLast_sublist _)
        (c.room_of_dropLast k), c.entries.getLast?)

/-! ## Lookups -/

/-- A key has one entry. -/
theorem peek_eq_some {c : Lru K V} {k : K} {v : V} : c.peek k = some v ↔ (k, v) ∈ c.entries := by
  unfold peek
  refine ⟨fun h => ?_, fun h => ?_⟩
  · obtain ⟨⟨k', v'⟩, he, rfl⟩ := Option.map_eq_some_iff.mp h
    obtain rfl : k' = k := by simpa using List.find?_some he
    exact List.mem_of_find?_eq_some he
  · obtain ⟨e, he⟩ := Option.isSome_iff_exists.mp
      (List.find?_isSome.mpr ⟨(k, v), h, by simp⟩ : (c.entries.find? fun e => e.1 = k).isSome)
    have hkey : e.1 = k := by simpa using List.find?_some he
    have hone : e = (k, v) :=
      List.inj_on_of_nodup_map c.nodup (List.mem_of_find?_eq_some he) h hkey
    rw [he, hone]
    rfl

theorem peek_eq_none {c : Lru K V} {k : K} : c.peek k = none ↔ k ∉ c.keys := by
  rw [← peek_isSome]
  cases c.peek k <;> simp

/-- With no entry of its own, a key has the whole list for others. -/
theorem others_eq {c : Lru K V} {k : K} (h : k ∉ c.keys) : c.others k = c.entries := by
  refine List.filter_eq_self.mpr fun e he => ?_
  have hne : e.1 ≠ k := fun hk => h (hk ▸ List.mem_map_of_mem he)
  simpa using hne

theorem mem_others {c : Lru K V} {k : K} {e : K × V} :
    e ∈ c.others k ↔ e ∈ c.entries ∧ e.1 ≠ k := by
  simp [others]

/-- An entry and the others are the list. -/
theorem perm_others {c : Lru K V} {k : K} {v : V} (h : c.peek k = some v) :
    c.entries.Perm ((k, v) :: c.others k) := by
  have hnd : c.entries.Nodup := c.nodup.of_map _
  have hnd' : ((k, v) :: c.others k).Nodup :=
    List.nodup_cons.mpr ⟨fun hm => (mem_others.mp hm).2 rfl, hnd.filter _⟩
  refine (List.perm_ext_iff_of_nodup hnd hnd').mpr fun e => ?_
  rw [List.mem_cons, mem_others]
  refine ⟨fun he => ?_, ?_⟩
  · by_cases hk : e.1 = k
    · exact .inl (List.inj_on_of_nodup_map c.nodup he (peek_eq_some.mp h) hk)
    · exact .inr ⟨he, hk⟩
  · rintro (rfl | ⟨he, -⟩)
    · exact peek_eq_some.mp h
    · exact he

/-- What a lookup returns. -/
@[simp] theorem get_snd (c : Lru K V) (k : K) : (c.get k).2 = c.peek k := by
  unfold get
  split
  · rename_i h
    exact h.symm
  · rename_i h
    exact h.symm

theorem get_of_some {c : Lru K V} {k : K} {v : V} (h : c.peek k = some v) :
    (c.get k).1.entries = (k, v) :: c.others k := by
  unfold get
  split
  · rename_i v' h'
    obtain rfl := Option.some.inj (h.symm.trans h')
    rfl
  · rename_i h'
    simp [h] at h'

theorem get_of_none {c : Lru K V} {k : K} (h : c.peek k = none) : (c.get k).1 = c := by
  unfold get
  split
  · rename_i h'
    simp [h] at h'
  · rfl

/-- A key that is not there is pushed in front, at the cost of the last entry of a full list. -/
theorem push_of_notMem {c : Lru K V} {k : K} (v : V) (h : k ∉ c.keys) :
    ((c.push k v).1.entries = (k, v) :: c.entries ∧ (c.push k v).2 = none) ∨
      ((c.push k v).1.entries = (k, v) :: c.entries.dropLast ∧
        (c.push k v).2 = c.entries.getLast? ∧ c.entries ≠ []) := by
  have hothers := others_eq h
  unfold push
  split
  · rename_i old hold
    exact absurd (peek_isSome.mp (by rw [hold]; rfl)) h
  · split
    · exact .inl ⟨congrArg _ hothers, rfl⟩
    · rename_i hfull
      refine .inr ⟨congrArg (fun es : List (K × V) => (k, v) :: es.dropLast) hothers, rfl, fun hnil => ?_⟩
      have hpos := c.pos
      simp only [len, hnil, List.length_nil] at hfull
      omega

/-- A push keeps the longest front that there is room for. -/
theorem push_longest {c : Lru K V} {k : K} (v : V) (h : k ∉ c.keys) :
    LongestFront (fun es => es.length ≤ c.cap) ((k, v) :: c.entries) (c.push k v).1.entries := by
  have hothers := others_eq h
  unfold push
  split
  · rename_i old hold
    exact absurd (peek_isSome.mp (by rw [hold]; rfl)) h
  · split
    · rename_i hroom
      dsimp only [inFront]
      rw [hothers]
      exact .refl hroom
    · rename_i hfull
      have hroom := c.room_of_dropLast k
      dsimp only [inFront]
      rw [hothers] at hroom ⊢
      unfold len at hfull
      have hne : c.entries ≠ [] := fun hnil => hfull (by rw [hnil]; exact c.pos)
      refine LongestFront.of_dropLast ?_ (by rw [List.length_cons]; omega)
      rw [List.dropLast_cons_of_ne_nil hne]
      exact .refl hroom

@[simp] theorem get_cap (c : Lru K V) (k : K) : (c.get k).1.cap = c.cap := by
  unfold get
  split <;> rfl

@[simp] theorem push_cap (c : Lru K V) (k : K) (v : V) : (c.push k v).1.cap = c.cap := by
  unfold push
  split
  · rfl
  · split <;> rfl

end Lru

/-! ## The order of use -/

section

variable {K : Type} [DecidableEq K]

/-- The part of a list that a sublist of it is. -/
theorem filter_mem_sublist {xs ys : List K} (h : xs.Sublist ys) (hnd : ys.Nodup) :
    ys.filter (· ∈ xs) = xs := by
  induction h with
  | slnil => rfl
  | @cons xs ys y h ih =>
      obtain ⟨hy, hnd⟩ := List.nodup_cons.mp hnd
      have hnot : y ∉ xs := fun hm => hy (h.subset hm)
      rw [List.filter_cons_of_neg (by simpa using hnot), ih hnd]
  | @cons_cons xs ys y h ih =>
      obtain ⟨hy, hnd⟩ := List.nodup_cons.mp hnd
      rw [List.filter_cons_of_pos (by simp)]
      refine congrArg (y :: ·) ((List.filter_congr fun z hz => ?_).trans (ih hnd))
      have hne : z ≠ y := fun h => hy (h ▸ hz)
      simp [hne]

/-- Keys stand in the order of their last use; `used` has everything that was ever used, most
recent first. -/
def InUseOrder (used keys : List K) : Prop := keys = used.filter (· ∈ keys)

/-- Some of the keys, in the order they have. -/
theorem InUseOrder.sublist {used keys keys' : List K} (h : InUseOrder used keys)
    (hnd : keys.Nodup) (hsub : keys'.Sublist keys) : InUseOrder used keys' := by
  unfold InUseOrder at *
  have hfilter : used.filter (· ∈ keys') = (used.filter (· ∈ keys)).filter (· ∈ keys') := by
    rw [List.filter_filter]
    refine List.filter_congr fun k _ => ?_
    by_cases hk : k ∈ keys'
    · simp [hk, hsub.subset hk]
    · simp [hk]
  rw [hfilter, ← h, filter_mem_sublist hsub hnd]

/-- Using a key that has no place in the list changes nothing for the others. -/
theorem InUseOrder.used {used keys : List K} {k : K} (h : InUseOrder used keys) (hnot : k ∉ keys) :
    InUseOrder (k :: used.filter (· ≠ k)) keys := by
  unfold InUseOrder at *
  rw [List.filter_cons_of_neg (by simpa using hnot), List.filter_filter]
  refine h.trans (List.filter_congr fun x _ => ?_)
  by_cases hx : x = k
  · subst hx
    simp [hnot]
  · simp [hx]

/-- The key that is used now comes first. -/
theorem InUseOrder.cons {used keys : List K} {k : K} (h : InUseOrder used keys) (hnot : k ∉ keys) :
    InUseOrder (k :: used.filter (· ≠ k)) (k :: keys) := by
  have hrest := h.used hnot
  unfold InUseOrder at *
  rw [List.filter_cons_of_neg (by simpa using hnot)] at hrest
  rw [List.filter_cons_of_pos (by simp)]
  refine congrArg (k :: ·) (hrest.trans (List.filter_congr fun x hx => ?_))
  have hne : x ≠ k := by simpa using (List.mem_filter.mp hx).2
  simp [hne]

end

end Lib
