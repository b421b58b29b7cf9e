import SynchrotronCD.Lib.Runs
import SynchrotronCD.Plugins.Cache

/-!
# The render caches are bounded LRU maps

The two caches are runs of one machine with four operations (`Op`), so everything is
shown for that machine. What one operation does to the entries is said once
(`entries_get`, `entries_put`, `entries_invalidate`); the counted bytes, the order of
use and what a lookup finds follow from that, along every run.

A put keeps a prefix of the other entries, and the entries stand in the order of their
last use. So what goes is what was used least recently.
-/

namespace SynchrotronCD.Render

open Lib

variable {K : Type}

/-! ## Bytes -/

/-- The sizes of some entries together. -/
def bytesOf (es : List (K × Entry)) : Nat := (es.map fun e => e.2.bytes).sum

@[simp] theorem bytesOf_cons (e : K × Entry) (es : List (K × Entry)) :
    bytesOf (e :: es) = e.2.bytes + bytesOf es := by
  simp [bytesOf]

theorem bytesOf_perm {es fs : List (K × Entry)} (h : es.Perm fs) : bytesOf es = bytesOf fs :=
  (h.map _).sum_nat

theorem bytesOf_sublist {es fs : List (K × Entry)} (h : es.Sublist fs) : bytesOf es ≤ bytesOf fs := by
  induction h with
  | slnil => exact Nat.le_refl _
  | cons e _ ih =>
      rw [bytesOf_cons]
      omega
  | cons_cons e _ ih =>
      rw [bytesOf_cons, bytesOf_cons]
      omega

/-- Without the last entry there is less by what that one has. -/
theorem bytesOf_dropLast {es : List (K × Entry)} {e : K × Entry} (h : es.getLast? = some e) :
    bytesOf es.dropLast = bytesOf es - e.2.bytes := by
  obtain ⟨init, rfl⟩ := List.getLast?_eq_some_iff.mp h
  simp [bytesOf]

namespace BoundedCache

/-- The recorded total is that of the entries stored. -/
def Counted (c : BoundedCache K) : Prop := c.totalBytes = bytesOf c.lru.entries

/-! ## Trimming -/

/-- What trimming leaves of some entries: a front part that is not empty, and fits or is
one entry. -/
structure Trimmed (c c' : BoundedCache K) : Prop where
  kept : c'.lru.entries <+: c.lru.entries
  notEmpty : c'.lru.entries ≠ []
  counted : c'.Counted
  fits : c'.totalBytes ≤ c'.maxBytes ∨ c'.lru.len = 1

theorem trim_trimmed (c : BoundedCache K) (hne : c.lru.entries ≠ []) (hc : c.Counted) :
    Trimmed c c.trim := by
  fun_induction trim c with
  | case1 c hover lru key evicted hpop ih =>
      have hlast : c.lru.entries.getLast? = some (key, evicted) := by
        rw [← Lru.popLru_snd, hpop]
      have hdrop : lru.entries = c.lru.entries.dropLast := by
        rw [← Lru.popLru_entries, hpop]
      have hsome : lru.entries ≠ [] := by
        have hlen : 1 < c.lru.entries.length := hover.2
        rw [hdrop]
        exact List.ne_nil_of_length_pos (by rw [List.length_dropLast]; omega)
      have hrest := ih hsome (by
        unfold Counted at *
        dsimp only
        rw [hdrop, bytesOf_dropLast hlast, hc])
      have hprefix : lru.entries <+: c.lru.entries := by
        rw [hdrop]
        exact List.dropLast_prefix _
      exact ⟨hrest.kept.trans hprefix, hrest.notEmpty, hrest.counted, hrest.fits⟩
  | case2 c hover lru hpop =>
      have hlast : c.lru.entries.getLast? = none := by
        rw [← Lru.popLru_snd, hpop]
      exact absurd (List.getLast?_eq_none_iff.mp hlast) hne
  | case3 c hfits =>
      refine ⟨List.prefix_refl _, hne, hc, ?_⟩
      have hpos : 0 < c.lru.len := List.length_pos_of_ne_nil hne
      omega

theorem trim_caps (c : BoundedCache K) :
    c.trim.lru.cap = c.lru.cap ∧ c.trim.maxBytes = c.maxBytes := by
  fun_induction trim c with
  | case1 c hover lru key evicted hpop ih =>
      have hcap : lru.cap = c.lru.cap := by
        have h : c.lru.popLru.1.cap = c.lru.cap := rfl
        rw [← h, hpop]
      exact ⟨ih.1.trans hcap, ih.2⟩
  | case2 | case3 => exact ⟨rfl, rfl⟩

/-! ## Lookups and invalidations -/

variable [DecidableEq K]

/-- The others have what is not the entry's own. -/
theorem bytesOf_others (c : Lru K Entry) (k : K) :
    bytesOf (c.others k) = bytesOf c.entries - ((c.peek k).map Entry.bytes).getD 0 := by
  cases h : c.peek k with
  | none => rw [Lru.others_eq (Lru.peek_eq_none.mp h)]; simp
  | some e =>
      rw [bytesOf_perm (Lru.perm_others h), bytesOf_cons]
      simp

theorem entries_get_of_some {c : BoundedCache K} {key : K} {entry : Entry}
    (h : c.lru.peek key = some entry) :
    (c.get key).1.lru.entries = (key, entry) :: c.lru.others key := by
  have hget := Lru.get_of_some h
  have hsnd := c.lru.get_snd key
  unfold get
  split
  · rename_i heq
    rw [heq] at hget
    exact hget
  · rename_i heq
    rw [heq] at hsnd
    simp [h] at hsnd

theorem entries_get_of_none {c : BoundedCache K} {key : K} (h : c.lru.peek key = none) :
    (c.get key).1.lru = c.lru := by
  have hget := Lru.get_of_none h
  unfold get
  split
  · rename_i heq
    rw [heq] at hget
    exact hget
  · rename_i heq
    rw [heq] at hget
    exact hget

/-- What a lookup answers. -/
theorem get_snd (c : BoundedCache K) (key : K) :
    (c.get key).2 = (c.lru.peek key).map Entry.manifests := by
  have hsnd := c.lru.get_snd key
  unfold get
  split
  · rename_i heq
    rw [heq] at hsnd
    simp [← hsnd]
  · rename_i heq
    rw [heq] at hsnd
    simp [← hsnd]

@[simp] theorem totalBytes_get (c : BoundedCache K) (key : K) :
    (c.get key).1.totalBytes = c.totalBytes := by
  unfold get
  split <;> rfl

theorem counted_get {c : BoundedCache K} (h : c.Counted) (key : K) : (c.get key).1.Counted := by
  unfold Counted at *
  rw [totalBytes_get, h]
  cases hp : c.lru.peek key with
  | none => rw [entries_get_of_none hp]
  | some entry =>
      rw [entries_get_of_some hp]
      exact bytesOf_perm (Lru.perm_others hp)

/-- Popping keys one after the other leaves the entries of the rest. -/
theorem popAll_spec {c : BoundedCache K} (hc : c.Counted) (keys : List K) :
    (c.popAll keys).lru.entries = c.lru.entries.filter (fun e => e.1 ∉ keys)
      ∧ (c.popAll keys).Counted := by
  induction keys generalizing c with
  | nil => exact ⟨(List.filter_eq_self.mpr (by simp)).symm, hc⟩
  | cons k keys ih =>
      have hpop : (release { c with lru := (c.lru.pop k).1 } (c.lru.pop k).2).Counted := by
        unfold Counted release
        dsimp only
        rw [hc]
        exact (bytesOf_others c.lru k).symm
      obtain ⟨hentries, hcounted⟩ := ih hpop
      refine ⟨?_, hcounted⟩
      rw [popAll, List.foldl_cons]
      refine hentries.trans ?_
      have hothers : (release { c with lru := (c.lru.pop k).1 } (c.lru.pop k).2).lru.entries
          = c.lru.entries.filter fun e => e.1 ≠ k := rfl
      rw [hothers, List.filter_filter]
      refine List.filter_congr fun e _ => ?_
      rw [Bool.eq_iff_iff]
      simp only [Bool.and_eq_true, decide_eq_true_eq, List.mem_cons]
      tauto

/-- **What an invalidation does**: exactly the entries of its keys are gone. -/
theorem entries_invalidate {c : BoundedCache K} (hc : c.Counted) (p : K → Bool) :
    (c.invalidate p).lru.entries = c.lru.entries.filter (fun e => !p e.1)
      ∧ (c.invalidate p).Counted := by
  obtain ⟨hentries, hcounted⟩ := popAll_spec hc (c.lru.keys.filter p)
  refine ⟨hentries.trans (List.filter_congr fun e he => ?_), hcounted⟩
  have hkey : e.1 ∈ c.lru.keys := List.mem_map_of_mem he
  rw [Bool.eq_iff_iff]
  simp [List.mem_filter, hkey]

theorem popAll_caps (c : BoundedCache K) (keys : List K) :
    (c.popAll keys).lru.cap = c.lru.cap ∧ (c.popAll keys).maxBytes = c.maxBytes := by
  induction keys generalizing c with
  | nil => exact ⟨rfl, rfl⟩
  | cons k keys ih => exact ih _

/-! ## Puts -/

variable [FloatText]

/-- The cache `put` has before it trims. -/
def pushed (c : BoundedCache K) (key : K) (manifests : List Manifest) : BoundedCache K :=
  (release { c with lru := (c.lru.pop key).1 } (c.lru.pop key).2).pushEntry key
    ⟨manifests, estimateBytes manifests⟩

theorem put_eq (c : BoundedCache K) (key : K) (manifests : List Manifest) :
    c.put key manifests = (c.pushed key manifests).trim := rfl

/-- A push puts its entry in front of the others, or of all of them but the last. -/
theorem pushed_spec {c : BoundedCache K} (hc : c.Counted) (key : K) (manifests : List Manifest) :
    (∃ kept, kept <+: c.lru.others key ∧ (c.pushed key manifests).lru.entries
      = (key, ⟨manifests, estimateBytes manifests⟩) :: kept)
    ∧ (c.pushed key manifests).Counted := by
  have hnotMem : key ∉ (c.lru.pop key).1.keys := c.lru.others_notMem key
  have hbytes : c.totalBytes - (((c.lru.pop key).2).map Entry.bytes).getD 0
      = bytesOf (c.lru.others key) := by
    rw [bytesOf_others, hc]
    rfl
  have hentries : (c.lru.pop key).1.entries = c.lru.others key := rfl
  unfold pushed pushEntry release Counted
  rcases Lru.push_of_notMem ⟨manifests, estimateBytes manifests⟩ hnotMem with
    ⟨hpush, hgone⟩ | ⟨hpush, hgone, hne⟩
  · rw [hentries] at hpush
    split
    · rename_i heq
      rw [heq] at hgone
      simp at hgone
    · rename_i heq
      rw [heq] at hpush
      refine ⟨⟨_, List.prefix_refl _, hpush⟩, ?_⟩
      dsimp only at hpush ⊢
      rw [hpush, bytesOf_cons, hbytes, Nat.add_comm]
  · rw [hentries] at hpush hgone hne
    split
    · rename_i heq
      rw [heq] at hpush hgone
      refine ⟨⟨_, List.dropLast_prefix _, hpush⟩, ?_⟩
      dsimp only at hpush hgone ⊢
      rw [hpush, bytesOf_cons, bytesOf_dropLast hgone.symm, hbytes, Nat.add_comm]
    · rename_i heq
      rw [heq] at hgone
      -- a list that evicts nothing was empty
      exact absurd (List.getLast?_eq_none_iff.mp hgone.symm) hne

/-- **What a put does**: its entry in front, then a front part of the others; the bytes are
counted, and they fit or there is one entry. -/
theorem entries_put {c : BoundedCache K} (hc : c.Counted) (key : K) (manifests : List Manifest) :
    (∃ kept, kept <+: c.lru.others key ∧ (c.put key manifests).lru.entries
      = (key, ⟨manifests, estimateBytes manifests⟩) :: kept)
    ∧ (c.put key manifests).Counted
    ∧ ((c.put key manifests).totalBytes ≤ (c.put key manifests).maxBytes
      ∨ (c.put key manifests).lru.len = 1) := by
  obtain ⟨⟨kept, hkept, hpushed⟩, hcounted⟩ := pushed_spec hc key manifests
  have htrim := trim_trimmed (c.pushed key manifests) (by rw [hpushed]; simp) hcounted
  rw [← put_eq] at htrim
  refine ⟨?_, htrim.counted, htrim.fits⟩
  have hprefix := htrim.kept
  rw [hpushed] at hprefix
  rcases List.prefix_cons_iff.mp hprefix with hnil | ⟨kept', hkept', hsub⟩
  · exact absurd hnil htrim.notEmpty
  · exact ⟨kept', hsub.trans hkept, hkept'⟩

end BoundedCache

end SynchrotronCD.Render
