import Mathlib.Data.List.Nodup

/-!
# Tables with a primary key and a unique name

A relational table whose rows have an identifier and a name, both unique. The
two constraints are fields of the table, so every operation keeps them: an
insert that would break one is refused.

The order of the rows is not observable through `find`, the only way to read a
single row; tables that agree on `find` are `Same`.
-/

namespace Lib

/-- Rows with an identifier and a name. -/
class Row (ρ : Type) where
  id : ρ → String
  name : ρ → String

/-- A violated constraint. -/
inductive Violation where
  | primaryKey
  | uniqueName
  | foreignKey
deriving DecidableEq, Repr

structure Table (ρ : Type) [Row ρ] where
  rows : List ρ
  ids : (rows.map Row.id).Nodup
  names : (rows.map Row.name).Nodup

namespace Table

theorem map_modify {ρ α : Type} (k : ρ → α) {f : ρ → ρ} (hf : ∀ r, k (f r) = k r) (p : ρ → Bool)
    (l : List ρ) : (l.map fun r => if p r then f r else r).map k = l.map k := by
  rw [List.map_map]
  refine List.map_congr_left fun r _ => ?_
  show k (if p r then f r else r) = k r
  split
  · exact hf r
  · rfl

variable {ρ : Type} [Row ρ]

def empty : Table ρ := ⟨[], List.nodup_nil, List.nodup_nil⟩

/-- `SELECT … WHERE name = ?`. -/
def find (t : Table ρ) (name : String) : Option ρ := t.rows.find? fun r => Row.name r = name

/-- Some row has that identifier. -/
def HasId (t : Table ρ) (id : String) : Prop := ∃ r ∈ t.rows, Row.id r = id

instance (t : Table ρ) (id : String) : Decidable (t.HasId id) :=
  inferInstanceAs (Decidable (∃ r ∈ t.rows, Row.id r = id))

/-- `INSERT`. -/
def insert (t : Table ρ) (r : ρ) : Except Violation (Table ρ) :=
  if hid : Row.id r ∈ t.rows.map Row.id then .error .primaryKey
  else if hname : Row.name r ∈ t.rows.map Row.name then .error .uniqueName
  else .ok ⟨r :: t.rows, List.nodup_cons.mpr ⟨hid, t.ids⟩, List.nodup_cons.mpr ⟨hname, t.names⟩⟩

/-- `DELETE … WHERE name = ?`. -/
def delete (t : Table ρ) (name : String) : Table ρ :=
  ⟨t.rows.filter fun r => Row.name r ≠ name, t.ids.sublist (List.filter_sublist.map _),
    t.names.sublist (List.filter_sublist.map _)⟩

/-- `UPDATE … WHERE name = ?`, of other columns than the identifier and the name. -/
def modify (t : Table ρ) (name : String) (f : ρ → ρ) (hid : ∀ r, Row.id (f r) = Row.id r)
    (hname : ∀ r, Row.name (f r) = Row.name r) : Table ρ :=
  ⟨t.rows.map fun r => if decide (Row.name r = name) then f r else r,
    by rw [map_modify _ hid]; exact t.ids, by rw [map_modify _ hname]; exact t.names⟩

/-- Tables from which the same rows are read. -/
def Same (t u : Table ρ) : Prop := ∀ name, t.find name = u.find name

/-- Every row changed in other columns than the identifier and the name. -/
def mapRows (t : Table ρ) (f : ρ → ρ) (hid : ∀ r, Row.id (f r) = Row.id r)
    (hname : ∀ r, Row.name (f r) = Row.name r) : Table ρ :=
  ⟨t.rows.map f, by rw [List.map_map, (funext hid : Row.id ∘ f = Row.id)]; exact t.ids,
    by rw [List.map_map, (funext hname : Row.name ∘ f = Row.name)]; exact t.names⟩

/-! ## Reading -/

theorem find_eq_some {t : Table ρ} {name : String} {r : ρ} :
    t.find name = some r ↔ r ∈ t.rows ∧ Row.name r = name := by
  unfold find
  refine ⟨?_, ?_⟩
  · intro h
    exact ⟨List.mem_of_find?_eq_some h, by simpa using List.find?_some h⟩
  · intro h
    obtain ⟨hmem, hname⟩ := h
    cases hf : t.rows.find? fun r => Row.name r = name with
    | none => exact absurd hname (by simpa using List.find?_eq_none.mp hf r hmem)
    | some s =>
        -- names are unique, so the row found is this one
        have hs : Row.name s = name := by simpa using List.find?_some hf
        rw [List.inj_on_of_nodup_map t.names (List.mem_of_find?_eq_some hf) hmem
          (hs.trans hname.symm)]

theorem find_eq_none {t : Table ρ} {name : String} :
    t.find name = none ↔ ∀ r ∈ t.rows, Row.name r ≠ name := by
  unfold find
  simp

theorem find_name {t : Table ρ} {name : String} {r : ρ} (h : t.find name = some r) :
    Row.name r = name := (find_eq_some.mp h).2

/-- Rows of one identifier are one row. -/
theorem find_id_inj {t : Table ρ} {m n : String} {r s : ρ} (hr : t.find m = some r)
    (hs : t.find n = some s) (h : Row.id r = Row.id s) : r = s :=
  List.inj_on_of_nodup_map t.ids (find_eq_some.mp hr).1 (find_eq_some.mp hs).1 h

theorem hasId_iff {t : Table ρ} {id : String} :
    t.HasId id ↔ ∃ name r, t.find name = some r ∧ Row.id r = id := by
  refine ⟨?_, ?_⟩
  · intro h
    obtain ⟨r, hr, hid⟩ := h
    exact ⟨Row.name r, r, find_eq_some.mpr ⟨hr, rfl⟩, hid⟩
  · intro h
    obtain ⟨name, r, hr, hid⟩ := h
    exact ⟨r, (find_eq_some.mp hr).1, hid⟩

/-! ## Reading after writing -/

theorem find_delete (t : Table ρ) (name n : String) :
    (t.delete name).find n = if n = name then none else t.find n := by
  by_cases hn : n = name
  · rw [if_pos hn, find_eq_none]
    intro r hr
    rw [hn]
    simpa using (List.mem_filter.mp hr).2
  · rw [if_neg hn]
    refine Option.ext fun r => ?_
    show (t.delete name).find n = some r ↔ t.find n = some r
    rw [find_eq_some, find_eq_some]
    unfold delete
    rw [List.mem_filter]
    refine ⟨fun h => ⟨h.1.1, h.2⟩, fun h => ⟨⟨h.1, ?_⟩, h.2⟩⟩
    rw [h.2]
    simpa using hn

theorem delete_of_find_none {t : Table ρ} {name : String} (h : t.find name = none) :
    t.delete name = t := by
  have hrows : (t.rows.filter fun r => Row.name r ≠ name) = t.rows := by
    rw [List.filter_eq_self]
    intro r hr
    simpa using find_eq_none.mp h r hr
  cases t
  unfold delete
  congr

theorem find_modify (t : Table ρ) (name n : String) (f : ρ → ρ)
    (hid : ∀ r, Row.id (f r) = Row.id r) (hname : ∀ r, Row.name (f r) = Row.name r) :
    (t.modify name f hid hname).find n = if n = name then (t.find n).map f else t.find n := by
  unfold find modify
  rw [List.find?_map]
  have hcomp : (fun r => decide (Row.name r = n))
      ∘ (fun r => if decide (Row.name r = name) then f r else r) = fun r => decide (Row.name r = n) := by
    funext r
    show decide (Row.name (if decide (Row.name r = name) then f r else r) = n) = _
    split
    · rw [hname]
    · rfl
  rw [hcomp]
  by_cases hn : n = name
  · subst hn
    rw [if_pos rfl]
    cases hf : t.rows.find? fun r => Row.name r = n with
    | none => rfl
    | some r => simp [show Row.name r = n by simpa using List.find?_some hf]
  · rw [if_neg hn]
    cases hf : t.rows.find? fun r => Row.name r = n with
    | none => rfl
    | some r =>
        have hr : Row.name r = n := by simpa using List.find?_some hf
        simp [hr, hn]

theorem modify_of_find_none {t : Table ρ} {name : String} {f : ρ → ρ}
    {hid : ∀ r, Row.id (f r) = Row.id r} {hname : ∀ r, Row.name (f r) = Row.name r}
    (h : t.find name = none) : t.modify name f hid hname = t := by
  have hrows : (t.rows.map fun r => if decide (Row.name r = name) then f r else r) = t.rows := by
    refine (List.map_congr_left fun r hr => ?_).trans (List.map_id t.rows)
    rw [decide_eq_false (find_eq_none.mp h r hr)]
    rfl
  cases t
  unfold modify
  congr

/-- An insert goes through exactly if neither the identifier nor the name is taken. -/
theorem insert_eq_ok {t u : Table ρ} {r : ρ} (h : t.insert r = .ok u) :
    ¬ t.HasId (Row.id r) ∧ t.find (Row.name r) = none
      ∧ ∀ n, u.find n = if n = Row.name r then some r else t.find n := by
  unfold insert at h
  split at h
  · simp at h
  · rename_i hid
    split at h
    · simp at h
    · rename_i hname
      have hnone : t.find (Row.name r) = none := by
        rw [find_eq_none]
        intro s hs heq
        exact hname (List.mem_map.mpr ⟨s, hs, heq⟩)
      refine ⟨?_, hnone, ?_⟩
      · intro hex
        obtain ⟨s, hs, heq⟩ := hex
        exact hid (List.mem_map.mpr ⟨s, hs, heq⟩)
      · intro n
        rw [← Except.ok.inj h]
        by_cases hn : n = Row.name r
        · rw [if_pos hn, find_eq_some]
          exact ⟨List.mem_cons_self, hn.symm⟩
        · rw [if_neg hn]
          have hne : ¬ Row.name r = n := fun he => hn he.symm
          unfold find
          rw [List.find?_cons_of_neg (by simpa using hne)]

theorem insert_of_fresh {t : Table ρ} {r : ρ} (hid : ¬ t.HasId (Row.id r))
    (hname : t.find (Row.name r) = none) : ∃ u, t.insert r = .ok u := by
  unfold insert
  rw [dif_neg (fun hm => by
    obtain ⟨s, hs, heq⟩ := List.mem_map.mp hm
    exact hid ⟨s, hs, heq⟩)]
  rw [dif_neg (fun hm => by
    obtain ⟨s, hs, heq⟩ := List.mem_map.mp hm
    exact find_eq_none.mp hname s hs heq)]
  exact ⟨_, rfl⟩

/-- **Replacing a row.** A row deleted and put back changed, under the same identifier, is
accepted. -/
theorem insert_delete_of_id {t : Table ρ} {name : String} {r s : ρ} (hr : t.find name = some r)
    (hid : Row.id s = Row.id r) (hname : Row.name s = name) :
    ∃ u, (t.delete name).insert s = .ok u := by
  refine insert_of_fresh ?_ ?_
  · intro hex
    obtain ⟨x, hx, hxid⟩ := hex
    obtain ⟨hmem, hne⟩ := List.mem_filter.mp hx
    -- the identifier belongs to the deleted row only
    have hxr : x = r := List.inj_on_of_nodup_map t.ids hmem (find_eq_some.mp hr).1
      (hxid.trans hid)
    rw [hxr, find_name hr] at hne
    simp at hne
  · rw [hname, find_delete, if_pos rfl]

/-! ## Tables from which the same rows are read -/

theorem Same.delete {t u : Table ρ} (h : t.Same u) (name : String) :
    (t.delete name).Same (u.delete name) := by
  intro n
  rw [find_delete, find_delete, h n]

theorem Same.modify {t u : Table ρ} (h : t.Same u) (name : String) (f : ρ → ρ)
    (hid : ∀ r, Row.id (f r) = Row.id r) (hname : ∀ r, Row.name (f r) = Row.name r) :
    (t.modify name f hid hname).Same (u.modify name f hid hname) := by
  intro n
  rw [find_modify, find_modify, h n]

/-- A row taken out and put back is the row changed in place, if it is what the change makes
of it. -/
theorem same_modify_iff {t u v : Table ρ} {name : String} {r s : ρ} {f : ρ → ρ}
    {hid : ∀ r, Row.id (f r) = Row.id r} {hname : ∀ r, Row.name (f r) = Row.name r}
    (h : t.Same v) (hr : t.find name = some r) (hs : Row.name s = name)
    (hins : (t.delete name).insert s = .ok u) : u.Same (v.modify name f hid hname) ↔ s = f r := by
  have hfind := (insert_eq_ok hins).2.2
  have hv : v.find name = some r := by rw [← h name, hr]
  refine ⟨?_, ?_⟩
  · intro hsame
    have hn := hsame name
    rw [hfind, if_pos hs.symm, find_modify, if_pos rfl, hv] at hn
    exact Option.some.inj hn
  · intro heq n
    rw [hfind, find_modify, hs, find_delete]
    by_cases hn : n = name
    · rw [if_pos hn, if_pos hn, hn, hv, heq]
      rfl
    · rw [if_neg hn, if_neg hn, if_neg hn, h n]

/-! ## Rows that are changed throughout -/

section

variable {f : ρ → ρ} {hid : ∀ r, Row.id (f r) = Row.id r} {hname : ∀ r, Row.name (f r) = Row.name r}

theorem eq_of_rows {t u : Table ρ} (h : t.rows = u.rows) : t = u := by
  cases t
  cases u
  congr

theorem find_mapRows (t : Table ρ) (name : String) :
    (t.mapRows f hid hname).find name = (t.find name).map f := by
  unfold find mapRows
  rw [List.find?_map]
  congr 2
  funext r
  rw [Function.comp, hname]

theorem delete_mapRows (t : Table ρ) (name : String) :
    (t.mapRows f hid hname).delete name = (t.delete name).mapRows f hid hname := by
  refine eq_of_rows ?_
  show (t.rows.map f).filter _ = (t.rows.filter _).map f
  rw [List.filter_map]
  congr 2
  funext r
  rw [Function.comp, hname]

theorem insert_mapRows (t : Table ρ) (r : ρ) :
    (t.mapRows f hid hname).insert (f r) = (t.insert r).map fun u => u.mapRows f hid hname := by
  have hids : (t.rows.map f).map Row.id = t.rows.map Row.id := by
    rw [List.map_map, (funext hid : Row.id ∘ f = Row.id)]
  have hnames : (t.rows.map f).map Row.name = t.rows.map Row.name := by
    rw [List.map_map, (funext hname : Row.name ∘ f = Row.name)]
  unfold insert
  by_cases h₁ : Row.id r ∈ t.rows.map Row.id
  · have h₁' : Row.id (f r) ∈ (t.mapRows f hid hname).rows.map Row.id := by
      rw [hid]
      exact hids ▸ h₁
    rw [dif_pos h₁, dif_pos h₁']
    rfl
  · have h₁' : Row.id (f r) ∉ (t.mapRows f hid hname).rows.map Row.id := by
      rw [hid]
      exact fun h => h₁ (hids ▸ h)
    rw [dif_neg h₁, dif_neg h₁']
    by_cases h₂ : Row.name r ∈ t.rows.map Row.name
    · have h₂' : Row.name (f r) ∈ (t.mapRows f hid hname).rows.map Row.name := by
        rw [hname]
        exact hnames ▸ h₂
      rw [dif_pos h₂, dif_pos h₂']
      rfl
    · have h₂' : Row.name (f r) ∉ (t.mapRows f hid hname).rows.map Row.name := by
        rw [hname]
        exact fun h => h₂ (hnames ▸ h)
      rw [dif_neg h₂, dif_neg h₂']
      rfl

end

end Table

end Lib
