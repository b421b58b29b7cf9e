import Mathlib.Data.List.Forall2
import SynchrotronCD.Lib.Json

/-!
# Trees read from other trees

How deep a JSON tree is nested, the tree with its numbers replaced, and what a
traversal that can fail makes of a list: the results stand to the elements one
by one.
-/

namespace Lib

open List (Forall₂)

/-! ## Traversals -/

/-- A traversal succeeds when it does on every element. -/
theorem mapM_eq_some_iff {α β : Type} {f : α → Option β} {xs : List α} {ys : List β} :
    xs.mapM f = some ys ↔ Forall₂ (fun x y => f x = some y) xs ys := by
  induction xs generalizing ys with
  | nil => cases ys <;> simp
  | cons x xs ih =>
      rw [List.mapM_cons]
      cases hx : f x with
      | none => cases ys <;> simp [hx]
      | some y =>
          cases hxs : xs.mapM f with
          | none => cases ys <;> simp [hx, ← ih, hxs]
          | some rest => cases ys <;> simp [hx, ← ih, hxs]

theorem mapM_eq_some_of_forall {α β : Type} {f : α → Option β} {xs : List α}
    (h : ∀ x ∈ xs, ∃ y, f x = some y) : ∃ ys, xs.mapM f = some ys := by
  induction xs with
  | nil => exact ⟨[], rfl⟩
  | cons x xs ih =>
      rw [List.forall_mem_cons] at h
      obtain ⟨⟨y, hy⟩, hrest⟩ := h
      obtain ⟨ys, hys⟩ := ih hrest
      exact ⟨y :: ys, by rw [List.mapM_cons, hy, hys]; rfl⟩

/-- Two traversals, one after the other, are one. -/
theorem mapM_bind_mapM {α β γ : Type} (f : α → Option β) (g : β → Option γ) (xs : List α) :
    (xs.mapM f).bind (fun ys => ys.mapM g) = xs.mapM (fun x => (f x).bind g) := by
  induction xs with
  | nil => rfl
  | cons x xs ih =>
      rw [List.mapM_cons, List.mapM_cons, ← ih]
      cases hx : f x with
      | none => rfl
      | some y =>
          cases hxs : xs.mapM f with
          | none => cases hy : g y <;> simp [hy]
          | some ys => simp

theorem exists_of_forall₂ {α β : Type} {R : α → β → Prop} {xs : List α} {ys : List β}
    (h : Forall₂ R xs ys) : ∀ x ∈ xs, ∃ y ∈ ys, R x y := by
  induction h with
  | nil => simp
  | cons hxy _ ih =>
      rw [List.forall_mem_cons]
      refine ⟨⟨_, List.mem_cons_self, hxy⟩, fun x hx => ?_⟩
      obtain ⟨y, hy, h⟩ := ih x hx
      exact ⟨y, List.mem_cons_of_mem _ hy, h⟩

/-- An implication that holds at the elements of the first list. -/
theorem forall₂_imp_mem {α β : Type} {R S : α → β → Prop} {xs : List α} {ys : List β}
    (h : Forall₂ R xs ys) (himp : ∀ x ∈ xs, ∀ y, R x y → S x y) : Forall₂ S xs ys :=
  ((List.forall₂_and_left xs ys).mpr ⟨himp, h⟩).imp fun _ y hxy => hxy.1 y hxy.2

/-- One relation after another. -/
theorem forall₂_comp {α β γ : Type} {R : α → β → Prop} {S : β → γ → Prop} {xs : List α}
    {ys : List β} {zs : List γ} (hR : Forall₂ R xs ys) (hS : Forall₂ S ys zs) :
    Forall₂ (fun x z => ∃ y, R x y ∧ S y z) xs zs := by
  induction hR generalizing zs with
  | nil =>
      cases hS
      exact .nil
  | cons hxy _ ih =>
      cases hS with
      | cons hyz hrest => exact .cons ⟨_, hxy, hyz⟩ (ih hrest)

theorem map_eq_of_forall₂ {α β κ : Type} {f : α → κ} {g : β → κ} {xs : List α} {ys : List β}
    (h : Forall₂ (fun x y => f x = g y) xs ys) : xs.map f = ys.map g := by
  rw [← List.forall₂_eq_eq_eq, List.forall₂_map_left_iff, List.forall₂_map_right_iff]
  exact h

/-- Lists with the same keys, no key twice: what an element is paired with under its key is
what stands in its place. -/
theorem forall₂_of_keys {α β κ : Type} {f : α → κ} {g : β → κ} {P : α → β → Prop} {xs : List α}
    {ys : List β} (hkeys : xs.map f = ys.map g) (hnd : (ys.map g).Nodup)
    (hfound : ∀ y ∈ ys, ∃ x ∈ xs, f x = g y ∧ P x y) : Forall₂ P xs ys := by
  induction xs generalizing ys with
  | nil =>
      rw [List.map_nil, eq_comm, List.map_eq_nil_iff] at hkeys
      exact hkeys ▸ .nil
  | cons x xs ih =>
      cases ys with
      | nil => simp at hkeys
      | cons y ys =>
          rw [List.map_cons, List.map_cons, List.cons.injEq] at hkeys
          rw [List.map_cons, List.nodup_cons] at hnd
          obtain ⟨hxy, hrest⟩ := hkeys
          obtain ⟨hy, hnd⟩ := hnd
          refine .cons ?_ (ih hrest hnd fun y' hy' => ?_)
          · obtain ⟨x', hx', he, hP⟩ := hfound y List.mem_cons_self
            rcases List.mem_cons.mp hx' with rfl | hx'
            · exact hP
            · have hkey : f x' ∈ ys.map g := hrest ▸ List.mem_map_of_mem hx'
              exact absurd (he ▸ hkey) hy
          · obtain ⟨x', hx', he, hP⟩ := hfound y' (List.mem_cons_of_mem _ hy')
            rcases List.mem_cons.mp hx' with rfl | hx'
            · -- the first key is not among the later ones
              exact absurd (List.mem_map.mpr ⟨y', hy', he.symm.trans hxy⟩) hy
            · exact ⟨x', hx', he, hP⟩

namespace Json

variable {N M : Type}

/-! ## Depth -/

mutual

/-- The number of arrays and objects around the innermost part of a tree. -/
def depth : Json N → Nat
  | .arr xs => depthElems xs + 1
  | .obj kvs => depthMembers kvs + 1
  | _ => 0

def depthElems : List (Json N) → Nat
  | [] => 0
  | x :: xs => max (depth x) (depthElems xs)

def depthMembers : List (String × Json N) → Nat
  | [] => 0
  | (_, v) :: kvs => max (depth v) (depthMembers kvs)

end

theorem depthElems_le {xs : List (Json N)} {n : Nat} :
    depthElems xs ≤ n ↔ ∀ x ∈ xs, depth x ≤ n := by
  induction xs with
  | nil => simp [depthElems]
  | cons x xs ih => rw [depthElems, Nat.max_le, ih, List.forall_mem_cons]

/-! ## Numbers -/

mutual

/-- The tree with `f` applied to its numbers, if it is defined on all of them. -/
def mapNums (f : N → Option M) : Json N → Option (Json M)
  | .null => some .null
  | .bool b => some (.bool b)
  | .num n => (f n).map .num
  | .str s => some (.str s)
  | .arr xs => (mapElems f xs).map .arr
  | .obj kvs => (mapMembers f kvs).map .obj

def mapElems (f : N → Option M) : List (Json N) → Option (List (Json M))
  | [] => some []
  | x :: xs => do
    let y ← mapNums f x
    let ys ← mapElems f xs
    return y :: ys

def mapMembers (f : N → Option M) : List (String × Json N) → Option (List (String × Json M))
  | [] => some []
  | (k, v) :: kvs => do
    let w ← mapNums f v
    let ws ← mapMembers f kvs
    return (k, w) :: ws

end

theorem mapElems_eq_mapM (f : N → Option M) (xs : List (Json N)) :
    mapElems f xs = xs.mapM (mapNums f) := by
  induction xs with
  | nil => rfl
  | cons x xs ih => rw [mapElems, ih, List.mapM_cons]

theorem mapMembers_eq_mapM (f : N → Option M) (kvs : List (String × Json N)) :
    mapMembers f kvs = kvs.mapM (fun kv => (mapNums f kv.2).map (Prod.mk kv.1)) := by
  induction kvs with
  | nil => rfl
  | cons kv kvs ih =>
      rw [mapMembers, ih, List.mapM_cons]
      cases mapNums f kv.2 <;> rfl

end Json

end Lib
