import SynchrotronCD.Plugins.CacheRuns

/-!
# What a render cache has kept

A put drops entries from the end, and no more than the two bounds ask for. So a cache that is
filled from nothing holds the longest front of what it was given, most recent first, that fits
(`warmed_longest`).

In a run the entries are always some of those that were put last and not invalidated since
(`recentPuts`), and in a run without lookups they are a front of them.
-/

namespace SynchrotronCD.Render

open Lib

variable {K : Type}

/-- Entries within both bounds, or one that is too big by itself. -/
def FitsIn (cap maxBytes : Nat) (es : List (K × Entry)) : Prop :=
  es.length ≤ cap ∧ (bytesOf es ≤ maxBytes ∨ es.length ≤ 1)

theorem fitsIn_nil (cap maxBytes : Nat) : FitsIn cap maxBytes ([] : List (K × Entry)) :=
  ⟨Nat.zero_le cap, .inr (by simp)⟩

theorem fitsIn_tail {cap maxBytes : Nat} (e : K × Entry) (es : List (K × Entry))
    (h : FitsIn cap maxBytes (e :: es)) : FitsIn cap maxBytes es := by
  obtain ⟨hcap, hbytes⟩ := h
  rw [List.length_cons] at hcap hbytes
  rw [bytesOf_cons] at hbytes
  refine ⟨by omega, ?_⟩
  rcases hbytes with hfits | hone
  · exact .inl (by omega)
  · exact .inr (by omega)

namespace BoundedCache

/-- Trimming stops as soon as the bytes fit. -/
theorem trim_longest (c : BoundedCache K) (hc : c.Counted) :
    LongestFront (fun es => bytesOf es ≤ c.maxBytes ∨ es.length ≤ 1) c.lru.entries
      c.trim.lru.entries := by
  fun_induction trim c with
  | case1 c hover lru key evicted hpop ih =>
      have hlast : c.lru.entries.getLast? = some (key, evicted) := by
        rw [← Lru.popLru_snd, hpop]
      have hdrop : lru.entries = c.lru.entries.dropLast := by
        rw [← Lru.popLru_entries, hpop]
      have hrest := ih (by
        unfold Counted at *
        dsimp only
        rw [hdrop, bytesOf_dropLast hlast, hc])
      dsimp only at hrest
      rw [hdrop] at hrest
      refine LongestFront.of_dropLast hrest ?_
      rw [← show c.totalBytes = bytesOf c.lru.entries from hc]
      have hlen := hover.2
      unfold Lru.len at hlen
      omega
  | case2 c hover lru hpop =>
      have hlast : c.lru.entries.getLast? = none := by
        rw [← Lru.popLru_snd, hpop]
      have hlen := hover.2
      rw [Lru.len, List.getLast?_eq_none_iff.mp hlast] at hlen
      exact absurd hlen (by simp)
  | case3 c hfits =>
      refine .refl ?_
      rw [← show c.totalBytes = bytesOf c.lru.entries from hc]
      unfold Lru.len at hfits
      omega

variable [DecidableEq K] [FloatText]

/-- What is stored for these manifests. -/
def entryOf (e : K × List Manifest) : K × Entry := (e.1, ⟨e.2, estimateBytes e.2⟩)

theorem pushed_lru (c : BoundedCache K) (key : K) (manifests : List Manifest) :
    (c.pushed key manifests).lru
      = ((c.lru.pop key).1.push key ⟨manifests, estimateBytes manifests⟩).1 := by
  unfold pushed pushEntry release
  split
  · rename_i heq
    rw [heq]
  · rename_i heq
    rw [heq]

theorem pushed_maxBytes (c : BoundedCache K) (key : K) (manifests : List Manifest) :
    (c.pushed key manifests).maxBytes = c.maxBytes := by
  unfold pushed pushEntry release
  split <;> rfl

/-- **What a put leaves**: the longest front of its entry and the others that fits. -/
theorem put_longest {c : BoundedCache K} (hc : c.Counted) (key : K) (manifests : List Manifest) :
    LongestFront (FitsIn c.lru.cap c.maxBytes) (entryOf (key, manifests) :: c.lru.others key)
      (c.put key manifests).lru.entries := by
  have hnot : key ∉ (c.lru.pop key).1.keys := c.lru.others_notMem key
  have hpush := Lru.push_longest (⟨manifests, estimateBytes manifests⟩ : Entry) hnot
  rw [← pushed_lru] at hpush
  have htrim := trim_longest (c.pushed key manifests) (pushed_spec hc key manifests).2
  rw [pushed_maxBytes, ← put_eq] at htrim
  exact hpush.and (fun xs ys hys hle => Nat.le_trans hys.length_le hle) htrim

/-- **A cache that is filled from nothing** holds the longest front that fits of what it was
given, the last one first. -/
theorem warmed_longest (maxEntries maxBytes : Nat) {given : List (K × List Manifest)}
    (hkeys : (given.map Prod.fst).Nodup) :
    LongestFront (FitsIn (max maxEntries 1) maxBytes) (given.map entryOf).reverse
      (exec step (new maxEntries maxBytes) (given.map fun e => .put e.1 e.2)).lru.entries := by
  induction given using List.reverseRecOn with
  | nil => exact .refl (fitsIn_nil _ _)
  | append_singleton given e ih =>
      rw [List.map_append, List.nodup_append] at hkeys
      obtain ⟨hrest, -, hapart⟩ := hkeys
      have hlongest := ih hrest
      have hinv := inv_exec maxEntries maxBytes (given.map fun e => CacheOp.put e.1 e.2)
      rw [List.map_append, List.map_append, List.reverse_append, List.map_singleton,
        List.map_singleton, exec_snoc]
      generalize exec step (new maxEntries maxBytes) (given.map fun e => CacheOp.put e.1 e.2) = c at *
      have hnot : e.1 ∉ c.lru.keys := by
        intro hmem
        obtain ⟨x, hx, hkey⟩ := List.mem_map.mp hmem
        have hgiven := hlongest.front.subset hx
        rw [List.mem_reverse] at hgiven
        obtain ⟨y, hy, rfl⟩ := List.mem_map.mp hgiven
        exact hapart _ (List.mem_map_of_mem hy) e.1 (by simp) hkey
      have hput := put_longest hinv.counted e.1 e.2
      rw [Lru.others_eq hnot, hinv.cap, hinv.maxBytes] at hput
      exact hlongest.cons fitsIn_tail hput

/-! ## Runs -/

/-- What was put last for each key and not invalidated since, most recent first. -/
def recentPuts (ops : List (CacheOp K)) : List (K × Entry) :=
  exec (fun es op => match op with
    | .get _ => es
    | .put key manifests => entryOf (key, manifests) :: es.filter (·.1 ≠ key)
    | .invalidate p => es.filter fun e => !p e.1
    | .clear => []) [] ops

theorem recentPuts_snoc (ops : List (CacheOp K)) (op : CacheOp K) :
    recentPuts (ops ++ [op]) = match op with
      | .get _ => recentPuts ops
      | .put key manifests => entryOf (key, manifests) :: (recentPuts ops).filter (·.1 ≠ key)
      | .invalidate p => (recentPuts ops).filter fun e => !p e.1
      | .clear => [] := exec_snoc _ _ _

theorem recentPuts_nodup (ops : List (CacheOp K)) : ((recentPuts ops).map Prod.fst).Nodup := by
  induction ops using List.reverseRecOn with
  | nil => exact List.nodup_nil
  | append_singleton ops op ih =>
      rw [recentPuts_snoc]
      cases op with
      | get key => exact ih
      | put key manifests =>
          dsimp only
          rw [List.map_cons, List.nodup_cons]
          refine ⟨fun hmem => ?_, (List.filter_sublist.map Prod.fst).nodup ih⟩
          obtain ⟨e, he, hkey⟩ := List.mem_map.mp hmem
          simp only [List.mem_filter, decide_eq_true_eq] at he
          exact he.2 hkey
      | invalidate p => exact (List.filter_sublist.map Prod.fst).nodup ih
      | clear => exact List.nodup_nil

/-- What was put is what is stored for its manifests. -/
theorem recentPuts_entryOf (ops : List (CacheOp K)) :
    ∀ e ∈ recentPuts ops, entryOf (e.1, e.2.manifests) = e := by
  induction ops using List.reverseRecOn with
  | nil => exact nofun
  | append_singleton ops op ih =>
      rw [recentPuts_snoc]
      cases op with
      | get key => exact ih
      | put key manifests =>
          exact List.forall_mem_cons.mpr ⟨rfl, fun e he => ih e (List.mem_of_mem_filter he)⟩
      | invalidate p => exact fun e he => ih e (List.mem_of_mem_filter he)
      | clear => exact nofun

/-- What is held was put last, and not invalidated since. -/
theorem mem_recentPuts (maxEntries maxBytes : Nat) (ops : List (CacheOp K)) :
    ∀ e ∈ (exec step (new maxEntries maxBytes) ops).lru.entries, e ∈ recentPuts ops := by
  induction ops using List.reverseRecOn with
  | nil => simp [new, Lru.new]
  | append_singleton ops op ih =>
      have hcounted := (inv_exec maxEntries maxBytes ops).counted
      rw [exec_snoc, recentPuts_snoc]
      generalize exec step (new maxEntries maxBytes) ops = c at *
      intro e he
      cases op with
      | get key =>
          rw [step] at he
          cases hp : c.lru.peek key with
          | none => exact ih e (by rwa [entries_get_of_none hp] at he)
          | some entry =>
              rw [entries_get_of_some hp] at he
              exact ih e ((Lru.perm_others hp).mem_iff.mpr he)
      | put key manifests =>
          have hfront := (put_longest hcounted key manifests).front.subset he
          rcases List.mem_cons.mp hfront with rfl | hother
          · exact List.mem_cons_self
          · obtain ⟨hmem, hne⟩ := Lru.mem_others.mp hother
            exact List.mem_cons_of_mem _ (List.mem_filter.mpr ⟨ih e hmem, by simpa using hne⟩)
      | invalidate p =>
          rw [step, (entries_invalidate hcounted p).1] at he
          obtain ⟨hmem, hp⟩ := List.mem_filter.mp he
          exact List.mem_filter.mpr ⟨ih e hmem, hp⟩
      | clear => simp [step, clear, Lru.clear, Lru.keep] at he

/-- Without lookups, what is held is a front of it. -/
theorem front_recentPuts (maxEntries maxBytes : Nat) {ops : List (CacheOp K)}
    (hops : ∀ key, .get key ∉ ops) :
    (exec step (new maxEntries maxBytes) ops).lru.entries <+: recentPuts ops := by
  induction ops using List.reverseRecOn with
  | nil => exact List.prefix_refl []
  | append_singleton ops op ih =>
      have hfront := ih fun key hmem => hops key (List.mem_append_left _ hmem)
      have hcounted := (inv_exec maxEntries maxBytes ops).counted
      rw [exec_snoc, recentPuts_snoc]
      generalize exec step (new maxEntries maxBytes) ops = c at *
      cases op with
      | get key => exact absurd (by simp) (hops key)
      | put key manifests =>
          refine (put_longest hcounted key manifests).front.trans ?_
          exact (List.prefix_cons_inj _).mpr (hfront.filter fun e : K × Entry => e.1 ≠ key)
      | invalidate p =>
          rw [step, (entries_invalidate hcounted p).1]
          exact hfront.filter fun e => !p e.1
      | clear => exact List.prefix_refl []

/-- What is held fits. -/
theorem fitsIn_exec (maxEntries maxBytes : Nat) (ops : List (CacheOp K)) :
    FitsIn (max maxEntries 1) maxBytes (exec step (new maxEntries maxBytes) ops).lru.entries := by
  have hinv := inv_exec maxEntries maxBytes ops
  have hbound := (exec step (new maxEntries maxBytes) ops).lru.bounded
  rw [hinv.cap] at hbound
  refine ⟨hbound, ?_⟩
  rw [← show _ = bytesOf _ from hinv.counted]
  have hfits := hinv.fits
  unfold Lru.len at hfits
  omega

end BoundedCache

end SynchrotronCD.Render
