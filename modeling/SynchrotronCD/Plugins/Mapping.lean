import Mathlib.Data.List.Perm.Basic
import Mathlib.Data.List.Perm.Subperm
import SynchrotronCD.Plugins.Value

/-!
# Mappings

Lookup and removal by key (`serde_yaml_ng::Mapping`), and what value equality is
on values whose mappings have plain keys: an equivalence that compares two
mappings key by key.

A key is plain if JSON can write it. The one exception is the negative zero: it is
the same key as zero, but does not read the same.
-/

namespace SynchrotronCD

/-! ## Operations -/

/-- `Mapping::get`: the value under a key. -/
def entry (kvs : List (Value × Value)) (k : Value) : Option Value :=
  (kvs.find? fun p => Value.beq k p.1).map Prod.snd

/-- Put a value under a key that is present. -/
def setEntry (k v : Value) : List (Value × Value) → List (Value × Value)
  | [] => []
  | p :: kvs => if Value.beq k p.1 then (p.1, v) :: kvs else p :: setEntry k v kvs

/-- `Mapping::remove`: the last entry moves to the place of the one removed. -/
def removeEntry (k : Value) (kvs : List (Value × Value)) : List (Value × Value) :=
  match kvs.findIdx? (fun p => Value.beq k p.1), kvs.getLast? with
  | some i, some last => (kvs.set i last).dropLast
  | _, _ => kvs

theorem entry_cons (p : Value × Value) (kvs : List (Value × Value)) (k : Value) :
    entry (p :: kvs) k = if Value.beq k p.1 = true then some p.2 else entry kvs k := by
  unfold entry
  rw [List.find?_cons]
  cases Value.beq k p.1 <;> rfl

/-- What is found under a key stands in the mapping under an equal one. -/
theorem entry_mem {kvs : List (Value × Value)} {k v : Value} (h : entry kvs k = some v) :
    ∃ k', (k', v) ∈ kvs ∧ Value.beq k k' = true := by
  unfold entry at h
  obtain ⟨p, hp, rfl⟩ := Option.map_eq_some_iff.mp h
  exact ⟨p.1, List.mem_of_find?_eq_some hp, by simpa using List.find?_some hp⟩

theorem entry_eq_none {kvs : List (Value × Value)} {k : Value} :
    entry kvs k = none ↔ ∀ p ∈ kvs, Value.beq k p.1 = false := by
  unfold entry
  rw [Option.map_eq_none_iff, List.find?_eq_none]
  simp

/-! ## Numbers -/

theorem Number.beq_self (n : Number) : n.beq n = true := by
  cases n with
  | posInt n => simp [beq]
  | negInt k => simp [beq]
  | float x => exact F64.beq_self x

theorem F64.beq_symm {x y : F64} (h : x.beq y = true) : y.beq x = true := by
  unfold beq at *
  grind

theorem F64.beq_trans {x y z : F64} (h : x.beq y = true) (h' : y.beq z = true) :
    x.beq z = true := by
  unfold beq at *
  grind

theorem Number.beq_symm {m n : Number} (h : m.beq n = true) : n.beq m = true := by
  cases m with
  | posInt a => cases n <;> simp_all [beq]
  | negInt a => cases n <;> simp_all [beq]
  | float x =>
      cases n with
      | float y => exact F64.beq_symm h
      | posInt | negInt => simp [beq] at h

theorem Number.beq_trans {l m n : Number} (h : l.beq m = true) (h' : m.beq n = true) :
    l.beq n = true := by
  cases m with
  | posInt b => cases l <;> simp_all [beq]
  | negInt b => cases l <;> simp_all [beq]
  | float y =>
      cases l with
      | float x =>
          cases n with
          | float z => exact F64.beq_trans h h'
          | posInt | negInt => simp [beq] at h'
      | posInt | negInt => simp [beq] at h

namespace Value

/-! ## Parts -/

/-- The values a value is made of. -/
def parts : Value → List Value
  | .sequence xs => xs
  | .mapping kvs => kvs.map Prod.snd
  | .tagged _ v => [v]
  | _ => []

theorem sizeOf_parts {v x : Value} (h : x ∈ v.parts) : sizeOf x < sizeOf v := by
  cases v with
  | sequence xs =>
      have := List.sizeOf_lt_of_mem (show x ∈ xs from h)
      simp only [sequence.sizeOf_spec]
      omega
  | mapping kvs =>
      obtain ⟨p, hp, rfl⟩ := List.mem_map.mp h
      have := List.sizeOf_lt_of_mem hp
      have hpair : sizeOf p = 1 + sizeOf p.1 + sizeOf p.2 := by cases p; rfl
      simp only [mapping.sizeOf_spec]
      omega
  | tagged t v =>
      have hx : x = v := by simpa [parts] using h
      subst hx
      simp only [tagged.sizeOf_spec]
      omega
  | null | bool | number | string => simp [parts] at h

/-- What holds of a value whenever it holds of its parts holds of every value. -/
theorem inductOnParts {P : Value → Prop} (h : ∀ v, (∀ x ∈ v.parts, P x) → P v) (v : Value) :
    P v := by
  induction hn : sizeOf v using Nat.strongRecOn generalizing v with
  | _ n ih =>
      apply h
      intro x hx
      exact ih (sizeOf x) (hn ▸ sizeOf_parts hx) x rfl

/-! ## Accessors -/

def asMapping (v : Value) : Option (List (Value × Value)) :=
  match v.untag with
  | .mapping kvs => some kvs
  | _ => none

def asSequence (v : Value) : Option (List Value) :=
  match v.untag with
  | .sequence xs => some xs
  | _ => none

/-- The value with `f` applied to the entry under a string key. -/
def modifyField (key : String) (f : Value → Value) : Value → Value
  | .mapping kvs =>
    .mapping (match entry kvs (.string key) with
      | some v => setEntry (.string key) (f v) kvs
      | none => kvs)
  | .tagged t v => .tagged t (modifyField key f v)
  | v => v

/-- The value with `f` applied to its elements. -/
def modifyElements (f : List Value → List Value) : Value → Value
  | .sequence xs => .sequence (f xs)
  | .tagged t v => .tagged t (modifyElements f v)
  | v => v

theorem get_modifyField (key : String) (f : Value → Value) (v : Value) :
    (modifyField key f v).get key = (v.get key).map f := by
  induction v using inductOnParts with
  | h v ih =>
      cases v with
      | mapping kvs =>
          show entry _ (.string key) = (entry kvs (.string key)).map f
          cases he : entry kvs (.string key) with
          | none => exact he
          | some v =>
              show entry (setEntry (.string key) (f v) kvs) (.string key) = some (f v)
              induction kvs with
              | nil => simp [entry] at he
              | cons p kvs ih' =>
                  rw [entry_cons] at he
                  rw [setEntry]
                  split
                  · rename_i hb
                    rw [entry_cons, if_pos hb]
                  · rename_i hb
                    rw [if_neg hb] at he
                    rw [entry_cons, if_neg hb]
                    exact ih' (fun x hx => ih x (List.mem_cons_of_mem _ hx)) he
      | tagged t v => exact ih v (List.mem_singleton_self v)
      | null | bool | number | string | sequence => rfl

theorem asSequence_modifyElements (f : List Value → List Value) (v : Value) :
    (modifyElements f v).asSequence = v.asSequence.map f := by
  induction v using inductOnParts with
  | h v ih =>
      cases v with
      | tagged t v => exact ih v (List.mem_singleton_self v)
      | null | bool | number | string | sequence | mapping => rfl

/-! ## Keys -/

/-- The keys of every mapping in a value satisfy `K`, and no mapping has one twice. -/
inductive KeyedBy (K : Value → Prop) : Value → Prop
  | null : KeyedBy K .null
  | bool (b : Bool) : KeyedBy K (.bool b)
  | number (n : Number) : KeyedBy K (.number n)
  | string (s : String) : KeyedBy K (.string s)
  | sequence {xs : List Value} (elements : ∀ x ∈ xs, KeyedBy K x) : KeyedBy K (.sequence xs)
  | mapping {kvs : List (Value × Value)} (keys : ∀ p ∈ kvs, K p.1)
      (distinct : (kvs.map Prod.fst).Nodup) (values : ∀ p ∈ kvs, KeyedBy K p.2) :
      KeyedBy K (.mapping kvs)
  | tagged {v : Value} (tag : String) (inner : KeyedBy K v) : KeyedBy K (.tagged tag v)

theorem KeyedBy.part {K : Value → Prop} {v x : Value} (h : KeyedBy K v) (hx : x ∈ v.parts) :
    KeyedBy K x := by
  cases h with
  | sequence elements => exact elements x hx
  | mapping _ _ values =>
      obtain ⟨p, hp, rfl⟩ := List.mem_map.mp hx
      exact values p hp
  | tagged _ inner =>
      have hxv := List.mem_singleton.mp hx
      exact hxv ▸ inner
  | null | bool | number | string => simp [parts] at hx

theorem KeyedBy.mono {K K' : Value → Prop} (hK : ∀ k, K k → K' k) {v : Value}
    (h : KeyedBy K v) : KeyedBy K' v := by
  induction h with
  | null => exact .null
  | bool b => exact .bool b
  | number n => exact .number n
  | string s => exact .string s
  | sequence _ ih => exact .sequence ih
  | mapping keys distinct _ ih => exact .mapping (fun p hp => hK _ (keys p hp)) distinct ih
  | tagged tag _ ih => exact .tagged tag ih

/-- A key that JSON can write, other than the negative zero. -/
def plainKey : Value → Bool
  | .string _ | .bool _ => true
  | .number (.float x) => x.isFinite && x.bits != 0x8000000000000000
  | .number _ => true
  | _ => false

/-- Every mapping key is plain, and no mapping has one twice. -/
abbrev Plain (v : Value) : Prop := KeyedBy (fun k => k.plainKey = true) v

/-- Every mapping key is a string, and no mapping has one twice. -/
abbrev StringKeyed (v : Value) : Prop := KeyedBy (fun k => ∃ s, k = .string s) v

theorem plainKey_of_string {k : Value} (h : ∃ s, k = .string s) : k.plainKey = true := by
  obtain ⟨s, rfl⟩ := h
  rfl

theorem StringKeyed.plain {v : Value} (h : v.StringKeyed) : v.Plain :=
  KeyedBy.mono (fun _ => plainKey_of_string) h

end Value

theorem F64.beq_eq_of_plain {x y : F64} (hx : x.isFinite = true) (hy : y.isFinite = true)
    (hx0 : x.bits ≠ 0x8000000000000000) (hy0 : y.bits ≠ 0x8000000000000000)
    (h : x.beq y = true) : x = y := by
  have hnan : ∀ z : F64, z.isFinite = true → z.isNan = false := by
    intro z hz
    simp only [isFinite, bne_iff_ne, ne_eq] at hz
    simp [isNan, hz]
  have hzero : ∀ z : F64, z.bits ≠ 0x8000000000000000 → z.isZero = true → z.bits = 0 := by
    intro z hz h0
    have hlt := z.bits.toNat_lt
    have hne : z.bits.toNat ≠ 2 ^ 63 := fun he => hz (UInt64.toNat_inj.mp (by rw [he]; rfl))
    simp only [isZero, beq_iff_eq] at h0
    apply UInt64.toNat_inj.mp
    show z.bits.toNat = 0
    omega
  simp only [beq, hnan x hx, hnan y hy, Bool.false_and, Bool.false_or, Bool.not_false,
    Bool.true_and, Bool.or_eq_true, beq_iff_eq, Bool.and_eq_true] at h
  rcases h with rfl | ⟨h1, h2⟩
  · rfl
  · cases x
    cases y
    exact congrArg F64.mk ((hzero _ hx0 h1).trans (hzero _ hy0 h2).symm)

namespace Value

theorem beq_key_self {k : Value} (h : k.plainKey = true) : beq k k = true := by
  cases k with
  | string s => simp [beq]
  | bool b => simp [beq]
  | number n => exact n.beq_self
  | null | sequence | mapping | tagged => simp [plainKey] at h

/-- Plain keys are equal only to themselves. -/
theorem beq_key_iff {k k' : Value} (h : k.plainKey = true) (h' : k'.plainKey = true) :
    beq k k' = true ↔ k = k' := by
  refine ⟨?_, ?_⟩
  · intro he
    cases k with
    | string s => cases k' <;> simp_all [beq]
    | bool b => cases k' <;> simp_all [beq]
    | number n =>
        cases k' with
        | number m =>
            cases n with
            | posInt a => cases m <;> simp_all [beq, Number.beq]
            | negInt a => cases m <;> simp_all [beq, Number.beq]
            | float x =>
                cases m with
                | float y =>
                    simp only [plainKey, Bool.and_eq_true, bne_iff_ne, ne_eq] at h h'
                    exact congrArg (fun z => Value.number (.float z))
                      (F64.beq_eq_of_plain h.1 h'.1 h.2 h'.2 he)
                | posInt | negInt => simp [beq, Number.beq] at he
        | null | bool | string | sequence | mapping | tagged => simp [beq] at he
    | null | sequence | mapping | tagged => simp [plainKey] at h
  · rintro rfl
    exact beq_key_self h

end Value

section

variable {kvs : List (Value × Value)}

theorem mem_keys {k v : Value} (h : (k, v) ∈ kvs) : k ∈ kvs.map Prod.fst :=
  List.mem_map.mpr ⟨(k, v), h, rfl⟩

theorem mem_of_key {k : Value} (h : k ∈ kvs.map Prod.fst) : ∃ v, (k, v) ∈ kvs := by
  obtain ⟨p, hp, rfl⟩ := List.mem_map.mp h
  exact ⟨p.2, hp⟩

/-- A key stands for at most one value. -/
theorem value_unique (hnd : (kvs.map Prod.fst).Nodup) {k v w : Value} (hv : (k, v) ∈ kvs)
    (hw : (k, w) ∈ kvs) : v = w := by
  have := List.inj_on_of_nodup_map hnd hv hw rfl
  exact congrArg Prod.snd this

theorem entry_of_strings (hk : ∀ p ∈ kvs, ∃ s, p.1 = .string s)
    {name : String} {u : Value} (h : entry kvs (.string name) = some u) : (.string name, u) ∈ kvs := by
  obtain ⟨k, hm, hb⟩ := entry_mem h
  have heq : Value.string name = k :=
    (Value.beq_key_iff rfl (Value.plainKey_of_string (hk _ hm))).mp hb
  exact heq ▸ hm

variable (hk : ∀ p ∈ kvs, p.1.plainKey = true)
include hk

/-- In a mapping with distinct plain keys, a lookup finds what stands under the key. -/
theorem entry_eq_some (hnd : (kvs.map Prod.fst).Nodup) {k v : Value} (hp : k.plainKey = true) :
    entry kvs k = some v ↔ (k, v) ∈ kvs := by
  refine ⟨?_, ?_⟩
  · intro h
    obtain ⟨k', hm, he⟩ := entry_mem h
    have : k = k' := (Value.beq_key_iff hp (hk _ hm)).mp he
    exact this ▸ hm
  · intro h
    cases he : entry kvs k with
    | none =>
        have := entry_eq_none.mp he _ h
        rw [Value.beq_key_self hp] at this
        exact absurd this (by simp)
    | some w =>
        obtain ⟨k', hm, hb⟩ := entry_mem he
        obtain rfl : k = k' := (Value.beq_key_iff hp (hk _ hm)).mp hb
        rw [value_unique hnd hm h]

end

/-- Distinct strings are distinct plain keys. -/
theorem entry_string_iff {kvs : List (Value × Value)} (hk : ∀ p ∈ kvs, ∃ s, p.1 = .string s)
    (hnd : (kvs.map Prod.fst).Nodup) {k v : Value} (hs : ∃ s, k = .string s) :
    entry kvs k = some v ↔ (k, v) ∈ kvs :=
  entry_eq_some (fun p hp => Value.plainKey_of_string (hk p hp)) hnd (Value.plainKey_of_string hs)

/-! ## Removal and replacement -/

/-- Moving the last entry into the gap only reorders what is left. -/
theorem removeEntry_perm (k : Value) (kvs : List (Value × Value)) :
    (removeEntry k kvs).Perm (kvs.eraseP fun p => Value.beq k p.1) := by
  unfold removeEntry
  rw [List.eraseP_eq_eraseIdx]
  cases hi : kvs.findIdx? (fun p => Value.beq k p.1) with
  | none => exact List.Perm.refl _
  | some i =>
      have hlt : i < kvs.length := by
        obtain ⟨h, -⟩ := List.findIdx?_eq_some_iff_getElem.mp hi
        exact h
      cases hl : kvs.getLast? with
      | none =>
          rw [List.getLast?_eq_none_iff] at hl
          simp [hl] at hlt
      | some last =>
          obtain ⟨init, rfl⟩ := List.getLast?_eq_some_iff.mp hl
          show ((init ++ [last]).set i last).dropLast.Perm ((init ++ [last]).eraseIdx i)
          by_cases hlast : i < init.length
          · rw [List.set_append_left i last hlast, List.dropLast_concat,
              List.eraseIdx_append_of_lt_length hlast]
            exact (List.set_perm_cons_eraseIdx hlast last).trans
              (List.perm_append_singleton last _).symm
          · -- the entry removed is the last one
            have hieq : i = init.length := by
              rw [List.length_append, List.length_singleton] at hlt
              omega
            subst hieq
            simp [List.eraseIdx_append_of_length_le]

section

variable {kvs : List (Value × Value)} {k₀ : Value} (hk : ∀ p ∈ kvs, p.1.plainKey = true)
  (hnd : (kvs.map Prod.fst).Nodup) (hp : k₀.plainKey = true)
include hk hp

theorem mem_eraseP_key (hnd : (kvs.map Prod.fst).Nodup) {k v : Value} :
    (k, v) ∈ kvs.eraseP (fun p => Value.beq k₀ p.1) ↔ (k, v) ∈ kvs ∧ k ≠ k₀ := by
  induction kvs with
  | nil => simp
  | cons p kvs ih =>
      obtain ⟨hp1, hk'⟩ := List.forall_mem_cons.mp hk
      rw [List.map_cons, List.nodup_cons] at hnd
      by_cases hb : Value.beq k₀ p.1 = true
      · have he : k₀ = p.1 := (Value.beq_key_iff hp hp1).mp hb
        simp only [List.eraseP_cons, hb, cond_true, List.mem_cons]
        refine ⟨?_, ?_⟩
        · intro hm
          exact ⟨Or.inr hm, fun h => hnd.1 (he ▸ h ▸ mem_keys hm)⟩
        · intro hboth
          obtain ⟨rfl | hm, hne⟩ := hboth
          · exact absurd he.symm hne
          · exact hm
      · simp only [List.eraseP_cons, hb, cond_false, List.mem_cons, ih hk' hnd.2]
        refine ⟨?_, ?_⟩
        · intro hor
          rcases hor with rfl | ⟨hm, hne⟩
          · refine ⟨Or.inl rfl, ?_⟩
            rintro rfl
            exact hb (Value.beq_key_self hp)
          · exact ⟨Or.inr hm, hne⟩
        · intro hboth
          obtain ⟨rfl | hm, hne⟩ := hboth
          · exact Or.inl rfl
          · exact Or.inr ⟨hm, hne⟩

/-- Removal takes the key out and leaves the other entries. -/
theorem mem_removeEntry (hnd : (kvs.map Prod.fst).Nodup) {k v : Value} :
    (k, v) ∈ removeEntry k₀ kvs ↔ (k, v) ∈ kvs ∧ k ≠ k₀ := by
  rw [(removeEntry_perm k₀ kvs).mem_iff, mem_eraseP_key hk hp hnd]

/-- Replacement changes the value under its key. -/
theorem mem_setEntry (hnd : (kvs.map Prod.fst).Nodup) {k v w : Value} :
    (k, v) ∈ setEntry k₀ w kvs ↔
      ((k, v) ∈ kvs ∧ k ≠ k₀) ∨ (k = k₀ ∧ v = w ∧ k₀ ∈ kvs.map Prod.fst) := by
  induction kvs with
  | nil => simp [setEntry]
  | cons p kvs ih =>
      obtain ⟨hp1, hk'⟩ := List.forall_mem_cons.mp hk
      rw [List.map_cons, List.nodup_cons] at hnd
      rw [setEntry]
      by_cases hb : Value.beq k₀ p.1 = true
      · have he : k₀ = p.1 := (Value.beq_key_iff hp hp1).mp hb
        rw [if_pos hb, List.mem_cons]
        refine ⟨?_, ?_⟩
        · intro hor
          rcases hor with heq | hm
          · obtain ⟨rfl, rfl⟩ := Prod.mk.inj heq
            exact Or.inr ⟨he.symm, rfl, by simp [he]⟩
          · exact Or.inl ⟨List.mem_cons_of_mem _ hm, fun h => hnd.1 (he ▸ h ▸ mem_keys hm)⟩
        · intro hor
          rcases hor with ⟨hm, hne⟩ | ⟨rfl, rfl, -⟩
          · rcases List.mem_cons.mp hm with rfl | hm
            · exact absurd he.symm hne
            · exact Or.inr hm
          · exact Or.inl (by rw [he])
      · rw [if_neg hb, List.mem_cons, List.mem_cons, ih hk' hnd.2, List.map_cons, List.mem_cons]
        have hne : k₀ ≠ p.1 := fun h => hb (h ▸ Value.beq_key_self hp)
        refine ⟨?_, ?_⟩
        · intro hor
          rcases hor with rfl | ⟨hm, hk0⟩ | ⟨rfl, rfl, hm⟩
          · exact Or.inl ⟨Or.inl rfl, Ne.symm hne⟩
          · exact Or.inl ⟨Or.inr hm, hk0⟩
          · exact Or.inr ⟨rfl, rfl, Or.inr hm⟩
        · intro hor
          rcases hor with ⟨rfl | hm, hk0⟩ | ⟨rfl, rfl, h | hm⟩
          · exact Or.inl rfl
          · exact Or.inr (Or.inl ⟨hm, hk0⟩)
          · exact absurd h hne
          · exact Or.inr (Or.inr ⟨rfl, rfl, hm⟩)

end

theorem setEntry_keys (k v : Value) (kvs : List (Value × Value)) :
    (setEntry k v kvs).map Prod.fst = kvs.map Prod.fst := by
  induction kvs with
  | nil => rfl
  | cons p kvs ih =>
      rw [setEntry]
      split
      · rfl
      · rw [List.map_cons, List.map_cons, ih]

theorem removeEntry_keys_nodup {k : Value} {kvs : List (Value × Value)}
    (h : (kvs.map Prod.fst).Nodup) : ((removeEntry k kvs).map Prod.fst).Nodup := by
  rw [((removeEntry_perm k kvs).map Prod.fst).nodup_iff]
  exact (List.Sublist.map _ List.eraseP_sublist).nodup h

theorem removeEntry_subset {k : Value} {kvs : List (Value × Value)} {p : Value × Value}
    (h : p ∈ removeEntry k kvs) : p ∈ kvs :=
  List.mem_of_mem_eraseP ((removeEntry_perm k kvs).mem_iff.mp h)

theorem Value.KeyedBy.remove {K : Value → Prop} {kvs : List (Value × Value)}
    (h : (Value.mapping kvs).KeyedBy K) (k : Value) :
    (Value.mapping (removeEntry k kvs)).KeyedBy K := by
  cases h with
  | mapping keys distinct values =>
      exact .mapping (fun p hp => keys p (removeEntry_subset hp))
        (removeEntry_keys_nodup distinct) (fun p hp => values p (removeEntry_subset hp))

theorem setEntry_mem {k v : Value} {kvs : List (Value × Value)} {p : Value × Value}
    (h : p ∈ setEntry k v kvs) : p ∈ kvs ∨ (p.1 ∈ kvs.map Prod.fst ∧ p.2 = v) := by
  induction kvs with
  | nil => simp [setEntry] at h
  | cons q kvs ih =>
      rw [setEntry] at h
      split at h
      · rcases List.mem_cons.mp h with rfl | h
        · exact Or.inr ⟨by simp, rfl⟩
        · exact Or.inl (List.mem_cons_of_mem _ h)
      · rcases List.mem_cons.mp h with rfl | h
        · exact Or.inl List.mem_cons_self
        · rcases ih h with h | ⟨h, hv⟩
          · exact Or.inl (List.mem_cons_of_mem _ h)
          · exact Or.inr ⟨List.mem_cons_of_mem _ h, hv⟩

theorem Value.KeyedBy.set {K : Value → Prop} {kvs : List (Value × Value)} {v : Value}
    (h : (Value.mapping kvs).KeyedBy K) (hv : v.KeyedBy K) (k : Value) :
    (Value.mapping (setEntry k v kvs)).KeyedBy K := by
  cases h with
  | mapping keys distinct values =>
      refine .mapping ?_ ?_ ?_
      · intro p hp
        have hk : p.1 ∈ kvs.map Prod.fst := by
          rw [← setEntry_keys k v kvs]
          exact List.mem_map_of_mem hp
        obtain ⟨w, hw⟩ := mem_of_key hk
        exact keys (p.1, w) hw
      · rw [setEntry_keys]
        exact distinct
      · intro p hp
        rcases setEntry_mem hp with h | ⟨-, rfl⟩
        · exact values p h
        · exact hv

/-! ## Equality -/

namespace Value

theorem subMapping_iff {ys : List (Value × Value)} : ∀ {xs : List (Value × Value)},
    subMapping xs ys = true ↔ ∀ p ∈ xs, ∃ v, entry ys p.1 = some v ∧ beq p.2 v = true
  | [] => by simp [subMapping]
  | (k, v) :: xs => by
      rw [subMapping, Bool.and_eq_true, subMapping_iff, List.forall_mem_cons]
      refine and_congr_left fun _ => ?_
      unfold entry
      cases ys.find? (fun p => beq k p.1) <;> simp

theorem beqList_iff : ∀ {xs ys : List Value}, beqList xs ys = true ↔
    xs.length = ys.length ∧
      ∀ (i : Nat) x y, xs[i]? = some x → ys[i]? = some y → beq x y = true
  | [], [] => by simp [beqList]
  | [], _ :: _ => by simp [beqList]
  | _ :: _, [] => by simp [beqList]
  | x :: xs, y :: ys => by
      rw [beqList, Bool.and_eq_true, beqList_iff]
      refine ⟨?_, ?_⟩
      · intro hboth
        obtain ⟨hxy, hlen, hall⟩ := hboth
        refine ⟨by simp [hlen], ?_⟩
        intro i a b ha hb
        cases i with
        | zero =>
            simp only [List.getElem?_cons_zero, Option.some.injEq] at ha hb
            exact ha ▸ hb ▸ hxy
        | succ i => exact hall i a b (by simpa using ha) (by simpa using hb)
      · intro hboth
        obtain ⟨hlen, hall⟩ := hboth
        refine ⟨hall 0 x y rfl rfl, by simpa using hlen, ?_⟩
        intro i a b ha hb
        exact hall (i + 1) a b (by simpa using ha) (by simpa using hb)

/-- Two mappings with distinct plain keys are equal when they have the same keys, with
equal values under each. -/
theorem beq_mapping_iff {xs ys : List (Value × Value)}
    (hx : ∀ p ∈ xs, p.1.plainKey = true) (hxn : (xs.map Prod.fst).Nodup)
    (hy : ∀ p ∈ ys, p.1.plainKey = true) (hyn : (ys.map Prod.fst).Nodup) :
    beq (.mapping xs) (.mapping ys) = true ↔
      (∀ k v, (k, v) ∈ xs → ∃ w, (k, w) ∈ ys ∧ beq v w = true) ∧
      (∀ k w, (k, w) ∈ ys → ∃ v, (k, v) ∈ xs) := by
  rw [beq, Bool.and_eq_true, beq_iff_eq, subMapping_iff]
  have hfound : ∀ p ∈ xs, ∀ w, entry ys p.1 = some w ↔ (p.1, w) ∈ ys :=
    fun p hp w => entry_eq_some hy hyn (hx p hp)
  refine ⟨?_, ?_⟩
  · intro hboth
    obtain ⟨hlen, hall⟩ := hboth
    have hl : ∀ k v, (k, v) ∈ xs → ∃ w, (k, w) ∈ ys ∧ beq v w = true := by
      intro k v hm
      obtain ⟨w, hw, hb⟩ := hall (k, v) hm
      exact ⟨w, (hfound (k, v) hm w).mp hw, hb⟩
    refine ⟨hl, ?_⟩
    -- as many keys on both sides, and those of the first among those of the second
    have hsub : xs.map Prod.fst ⊆ ys.map Prod.fst := by
      intro k hk
      obtain ⟨v, hv⟩ := mem_of_key hk
      obtain ⟨w, hw, -⟩ := hl k v hv
      exact mem_keys hw
    have hperm : (xs.map Prod.fst).Perm (ys.map Prod.fst) :=
      (List.subperm_of_subset hxn hsub).perm_of_length_le (by simp [hlen])
    intro k w hm
    exact mem_of_key (hperm.symm.subset (mem_keys hm))
  · intro hboth
    obtain ⟨hl, hr⟩ := hboth
    refine ⟨?_, fun p hp => ?_⟩
    · have hperm : (xs.map Prod.fst).Perm (ys.map Prod.fst) := by
        rw [List.perm_ext_iff_of_nodup hxn hyn]
        intro k
        refine ⟨?_, ?_⟩
        · intro hk
          obtain ⟨v, hv⟩ := mem_of_key hk
          obtain ⟨w, hw, -⟩ := hl k v hv
          exact mem_keys hw
        · intro hk
          obtain ⟨w, hw⟩ := mem_of_key hk
          obtain ⟨v, hv⟩ := hr k w hw
          exact mem_keys hv
      simpa using hperm.length_eq
    · obtain ⟨w, hw, hb⟩ := hl p.1 p.2 hp
      exact ⟨w, (hfound p hp w).mpr hw, hb⟩

theorem beq_refl {v : Value} (h : v.Plain) : beq v v = true := by
  induction h with
  | null => rfl
  | bool b => simp [beq]
  | number n => exact n.beq_self
  | string s => simp [beq]
  | sequence _ ih =>
      rw [beq, beqList_iff]
      refine ⟨rfl, ?_⟩
      intro i x y hx hy
      obtain rfl : x = y := Option.some.inj (hx.symm.trans hy)
      exact ih x (List.mem_of_getElem? hx)
  | mapping keys distinct _ ih =>
      rw [beq_mapping_iff keys distinct keys distinct]
      exact ⟨fun k v hm => ⟨v, hm, ih _ hm⟩, fun k w hm => ⟨w, hm⟩⟩
  | tagged tag _ ih => simp [beq, ih]

theorem beq_symm {v : Value} (hv : v.Plain) :
    ∀ {w : Value}, w.Plain → beq v w = true → beq w v = true := by
  induction hv with
  | null => intro w _ h; cases w <;> simp_all [beq]
  | bool b => intro w _ h; cases w <;> simp_all [beq]
  | string s => intro w _ h; cases w <;> simp_all [beq]
  | number n =>
      intro w _ h
      cases w with
      | number m => exact Number.beq_symm h
      | null | bool | string | sequence | mapping | tagged => simp [beq] at h
  | sequence _ ih =>
      intro w hw h
      cases hw with
      | sequence hys =>
          rw [beq, beqList_iff] at *
          refine ⟨h.1.symm, ?_⟩
          intro i y x hy hx
          exact ih x (List.mem_of_getElem? hx) (hys y (List.mem_of_getElem? hy)) (h.2 i x y hx hy)
      | null | bool | number | string | mapping | tagged => simp [beq] at h
  | mapping keys distinct _ ih =>
      intro w hw h
      cases hw with
      | mapping keys' distinct' values' =>
          rw [beq_mapping_iff keys distinct keys' distinct'] at h
          rw [beq_mapping_iff keys' distinct' keys distinct]
          obtain ⟨hl, hr⟩ := h
          refine ⟨fun k w hm => ?_, fun k v hm => ?_⟩
          · obtain ⟨v, hv⟩ := hr k w hm
            obtain ⟨w', hw', hb⟩ := hl k v hv
            obtain rfl : w' = w := value_unique distinct' hw' hm
            exact ⟨v, hv, ih _ hv (values' _ hm) hb⟩
          · obtain ⟨w, hw, -⟩ := hl k v hm
            exact ⟨w, hw⟩
      | null | bool | number | string | sequence | tagged => simp [beq] at h
  | tagged tag _ ih =>
      intro w hw h
      cases hw with
      | tagged tag' inner =>
          simp only [beq, Bool.and_eq_true, beq_iff_eq] at h ⊢
          exact ⟨h.1.symm, ih inner h.2⟩
      | null | bool | number | string | sequence | mapping => simp [beq] at h

theorem beq_trans {u : Value} (hu : u.Plain) : ∀ {v w : Value}, v.Plain → w.Plain →
    beq u v = true → beq v w = true → beq u w = true := by
  induction hu with
  | null =>
      intro v w _ _ h h'
      cases v with
      | null => exact h'
      | bool | number | string | sequence | mapping | tagged => simp [beq] at h
  | bool b =>
      intro v w _ _ h h'
      cases v with
      | bool b' =>
          obtain rfl : b = b' := by simpa [beq] using h
          exact h'
      | null | number | string | sequence | mapping | tagged => simp [beq] at h
  | string s =>
      intro v w _ _ h h'
      cases v with
      | string s' =>
          obtain rfl : s = s' := by simpa [beq] using h
          exact h'
      | null | bool | number | sequence | mapping | tagged => simp [beq] at h
  | number n =>
      intro v w _ _ h h'
      cases v with
      | number m =>
          cases w with
          | number k => exact Number.beq_trans h h'
          | null | bool | string | sequence | mapping | tagged => simp [beq] at h'
      | null | bool | string | sequence | mapping | tagged => simp [beq] at h
  | @sequence xs _ ih =>
      intro v w hv hw h h'
      cases hv with
      | @sequence ys hys =>
          cases hw with
          | sequence hzs =>
              rw [beq, beqList_iff] at *
              refine ⟨h.1.trans h'.1, ?_⟩
              intro i x z hx hz
              -- through the element of the middle one at the same place
              have hi : i < ys.length := h.1 ▸ (List.getElem?_eq_some_iff.mp hx).1
              have hy := List.getElem?_eq_getElem hi
              exact ih x (List.mem_of_getElem? hx) (hys _ (List.mem_of_getElem? hy))
                (hzs z (List.mem_of_getElem? hz)) (h.2 i x _ hx hy) (h'.2 i _ z hy hz)
          | null | bool | number | string | mapping | tagged => simp [beq] at h'
      | null | bool | number | string | mapping | tagged => simp [beq] at h
  | mapping keys distinct _ ih =>
      intro v w hv hw h h'
      cases hv with
      | mapping keys' distinct' values' =>
          cases hw with
          | mapping keys'' distinct'' values'' =>
              rw [beq_mapping_iff keys distinct keys' distinct'] at h
              rw [beq_mapping_iff keys' distinct' keys'' distinct''] at h'
              rw [beq_mapping_iff keys distinct keys'' distinct'']
              refine ⟨fun k x hx => ?_, fun k z hz => ?_⟩
              · -- through the entry of the middle one under the same key
                obtain ⟨y, hy, hxy⟩ := h.1 k x hx
                obtain ⟨z, hz, hyz⟩ := h'.1 k y hy
                exact ⟨z, hz, ih _ hx (values' _ hy) (values'' _ hz) hxy hyz⟩
              · obtain ⟨y, hy⟩ := h'.2 k z hz
                exact h.2 k y hy
          | null | bool | number | string | sequence | tagged => simp [beq] at h'
      | null | bool | number | string | sequence | tagged => simp [beq] at h
  | tagged tag _ ih =>
      intro v w hv hw h h'
      cases hv with
      | tagged tag' inner =>
          cases hw with
          | tagged tag'' inner' =>
              simp only [beq, Bool.and_eq_true, beq_iff_eq] at h h' ⊢
              exact ⟨h.1.trans h'.1, ih inner inner' h.2 h'.2⟩
          | null | bool | number | string | sequence | mapping => simp [beq] at h'
      | null | bool | number | string | sequence | mapping => simp [beq] at h

end Value

end SynchrotronCD
