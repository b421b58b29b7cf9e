import Mathlib.Algebra.Order.Ring.Int
import Mathlib.Data.List.AList
import Mathlib.Data.List.Induction

/-!
# Finite maps and the total weight of their values

A hash map is an association list without duplicate keys (`AList`), which
carries that invariant in its type. Mathlib has the lookup laws; what is added
here is what a map built from a list holds, and the weight of a map — the sum of
a measure over its values — and how the operations change it. A cached total that
is maintained next to the map is then shown correct one operation at a time.
-/

namespace Lib

variable {K V : Type} [DecidableEq K]

/-- A hash map from `K` to `V`. -/
abbrev HashMap (K V : Type) := AList (fun _ : K => V)

/-- A map into which the elements of a list were put one after the other holds the last one of
each key. -/
theorem lookup_foldl_insert {α : Type} (key : α → K) (val : α → V) (l : List α) (k : K) :
    (l.foldl (fun m x => m.insert (key x) (val x)) (∅ : HashMap K V)).lookup k
      = (l.reverse.find? fun x => key x = k).map val := by
  induction l using List.reverseRecOn with
  | nil => rfl
  | append_singleton l x ih =>
      rw [List.foldl_append, List.reverse_append, List.reverse_singleton, List.singleton_append,
        List.foldl_cons, List.foldl_nil]
      by_cases hx : key x = k
      · rw [List.find?_cons_of_pos (by simpa using hx), ← hx, AList.lookup_insert]
        rfl
      · rw [List.find?_cons_of_neg (by simpa using hx), AList.lookup_insert_ne (Ne.symm hx), ih]

/-- What a map has not yet is filled in with the first element of its key. -/
theorem lookup_foldl_orInsert {α : Type} (key : α → K) (val : α → V) (l : List α)
    (m : HashMap K V) (k : K) :
    (l.foldl (fun m x => if key x ∈ m then m else m.insert (key x) (val x)) m).lookup k
      = (m.lookup k).or ((l.find? fun x => key x = k).map val) := by
  induction l generalizing m with
  | nil => simp
  | cons x l ih =>
      rw [List.foldl_cons, ih]
      by_cases hx : key x = k
      · subst hx
        rw [List.find?_cons_of_pos (by simp)]
        by_cases hm : key x ∈ m
        · obtain ⟨v, hv⟩ := Option.isSome_iff_exists.mp (AList.lookup_isSome.mpr hm)
          rw [if_pos hm, hv, Option.some_or, Option.some_or]
        · rw [if_neg hm, AList.lookup_insert, AList.lookup_eq_none.mpr hm]
          rfl
      · rw [List.find?_cons_of_neg (by simpa using hx)]
        by_cases hm : key x ∈ m
        · rw [if_pos hm]
        · rw [if_neg hm, AList.lookup_insert_ne (Ne.symm hx)]

/-- The elements of a list put under their keys, each behind the earlier ones of its key. -/
theorem lookup_foldl_push {α : Type} (key : α → K) (l : List α) (k : K) :
    (l.foldl (fun m x => m.insert (key x) ((m.lookup (key x)).getD [] ++ [x]))
      (∅ : HashMap K (List α))).lookup k
      = if l.filter (fun x => key x = k) = [] then none
        else some (l.filter fun x => key x = k) := by
  induction l using List.reverseRecOn with
  | nil => rfl
  | append_singleton l x ih =>
      rw [List.foldl_append, List.foldl_cons, List.foldl_nil, List.filter_append]
      by_cases hx : key x = k
      · subst hx
        rw [AList.lookup_insert, ih]
        by_cases hl : l.filter (fun y => key y = key x) = [] <;> simp [hl]
      · rw [AList.lookup_insert_ne (Ne.symm hx), ih]
        simp [hx]

/-- The groups of distinct keys that cover a list make up the list. -/
theorem perm_flatMap_filter {α : Type} (key : α → K) {ks : List K} (hnd : ks.Nodup)
    {l : List α} (hcover : ∀ x ∈ l, key x ∈ ks) :
    (ks.flatMap fun k => l.filter fun x => key x = k).Perm l := by
  induction ks generalizing l with
  | nil =>
      have hl : l = [] := List.eq_nil_iff_forall_not_mem.mpr fun x hx => by simpa using hcover x hx
      rw [hl, List.flatMap_nil]
  | cons k ks ih =>
      obtain ⟨hk, hnd⟩ := List.nodup_cons.mp hnd
      have hrest : ∀ x ∈ l.filter (fun x => !decide (key x = k)), key x ∈ ks := by
        intro x hx
        obtain ⟨hxl, hxk⟩ := List.mem_filter.mp hx
        exact (List.mem_cons.mp (hcover x hxl)).resolve_left (by simpa using hxk)
      have hsame : ks.flatMap (fun k' => (l.filter fun x => !decide (key x = k)).filter
          fun x => key x = k') = ks.flatMap fun k' => l.filter fun x => key x = k' := by
        refine List.flatMap_congr fun k' hk' => ?_
        rw [List.filter_filter]
        refine List.filter_congr fun x _ => ?_
        -- an element of a later group has not the first key
        by_cases hx : key x = k'
        · have hne : k' ≠ k := fun h => hk (h ▸ hk')
          simp [hx, hne]
        · simp [hx]
      rw [List.flatMap_cons, ← hsame]
      exact ((ih hnd hrest).append_left _).trans (List.filter_append_perm _ l)

/-- The bindings whose value passes. -/
def HashMap.retain (m : HashMap K V) (f : V → Bool) : HashMap K V :=
  ⟨m.entries.filter fun e => f e.2, m.nodupKeys.sublist List.filter_sublist⟩

theorem lookup_retain (m : HashMap K V) (f : V → Bool) (k : K) :
    (m.retain f).lookup k = (m.lookup k).filter f := by
  refine Option.ext fun v => ?_
  show v ∈ (m.retain f).lookup k ↔ (m.lookup k).filter f = some v
  rw [AList.mem_lookup_iff, Option.filter_eq_some_iff, HashMap.retain, List.mem_filter,
    ← AList.mem_lookup_iff]
  rfl

/-- The sum of `f` over the values of a list of bindings. -/
def listWeight (f : V → Nat) (l : List (Sigma fun _ : K => V)) : Nat := (l.map (fun e => f e.2)).sum

/-- The sum of `f` over the values of a map. -/
def weight (f : V → Nat) (m : HashMap K V) : Nat := listWeight f m.entries

theorem listWeight_kerase (f : V → Nat) (k : K) (l : List (Sigma fun _ : K => V)) :
    listWeight f l = ((List.dlookup k l).map f).getD 0 + listWeight f (List.kerase k l) := by
  induction l with
  | nil => simp [listWeight]
  | cons e l ih =>
      by_cases hk : k = e.1
      · obtain ⟨k', v⟩ := e
        dsimp only at hk
        subst hk
        simp [listWeight]
      · have hl : List.dlookup k (e :: l) = List.dlookup k l := List.dlookup_cons_ne l e hk
        rw [List.kerase_cons_ne hk, hl]
        simp only [listWeight, List.map_cons, List.sum_cons] at ih ⊢
        omega

/-- Removing a key takes away exactly the weight of its value. -/
theorem weight_erase (f : V → Nat) (k : K) (m : HashMap K V) :
    weight f m = ((m.lookup k).map f).getD 0 + weight f (m.erase k) :=
  listWeight_kerase f k m.entries

/-- Setting a key replaces the weight of its value. -/
theorem weight_insert (f : V → Nat) (k : K) (v : V) (m : HashMap K V) :
    weight f (m.insert k v) = f v + weight f (m.erase k) := by
  show listWeight f (⟨k, v⟩ :: List.kerase k m.entries) = f v + listWeight f (List.kerase k m.entries)
  simp [listWeight]

theorem weight_insert_add (f : V → Nat) (k : K) (v : V) (m : HashMap K V) :
    weight f (m.insert k v) + ((m.lookup k).map f).getD 0 = f v + weight f m := by
  rw [weight_insert, weight_erase f k m]; omega

/-- A key whose value weighs nothing can be dropped. -/
theorem weight_erase_of_zero {f : V → Nat} {k : K} {m : HashMap K V}
    (h : ∀ v, m.lookup k = some v → f v = 0) : weight f (m.erase k) = weight f m := by
  rw [weight_erase f k m]
  cases hv : m.lookup k with
  | none => simp
  | some v => simp [h v hv]

end Lib
