import SynchrotronCD.Lib.Runs
import SynchrotronCD.Plugins.CacheProof

/-!
# Runs of the render caches

Both caches are runs of one machine with four operations, a warm-up being the puts it
is made of. Along every run the bytes are counted right and both caps hold, a lookup
finds what was put last and has stayed since, and the entries stand in the order of
their last use. A put keeps a front part of them, so what goes is what was used least
recently.
-/

namespace SynchrotronCD.Render

open Lib

/-- What is done with a cache. -/
inductive CacheOp (K : Type) where
  | get (key : K)
  | put (key : K) (manifests : List Manifest)
  | invalidate (p : K → Bool)
  | clear

variable {K : Type} [FloatText]

namespace BoundedCache

/-! ## What holds of every state -/

/-- The bytes are counted right and the caps are kept. -/
structure Inv (maxEntries maxBytes : Nat) (c : BoundedCache K) : Prop where
  counted : c.Counted
  sizes : ∀ e ∈ c.lru.entries, e.2.bytes = estimateBytes e.2.manifests
  fits : c.totalBytes ≤ maxBytes ∨ c.lru.len = 1
  cap : c.lru.cap = max maxEntries 1
  maxBytes : c.maxBytes = maxBytes

theorem inv_new (maxEntries maxBytes : Nat) :
    Inv maxEntries maxBytes (new maxEntries maxBytes : BoundedCache K) where
  counted := rfl
  sizes := by simp [new, Lru.new]
  fits := .inl (Nat.zero_le _)
  cap := rfl
  maxBytes := rfl

variable [DecidableEq K]

def step (c : BoundedCache K) : CacheOp K → BoundedCache K
  | .get key => (c.get key).1
  | .put key manifests => c.put key manifests
  | .invalidate p => c.invalidate p
  | .clear => c.clear

/-- The caps stay what they are. -/
theorem step_caps (c : BoundedCache K) (op : CacheOp K) :
    (c.step op).lru.cap = c.lru.cap ∧ (c.step op).maxBytes = c.maxBytes := by
  cases op with
  | get key =>
      rw [step]
      have hcap := c.lru.get_cap key
      unfold get
      split
      · rename_i heq
        rw [heq] at hcap
        exact ⟨hcap, rfl⟩
      · rename_i heq
        rw [heq] at hcap
        exact ⟨hcap, rfl⟩
  | put key manifests =>
      obtain ⟨hcap, hbytes⟩ := trim_caps (c.pushed key manifests)
      rw [step, put_eq, hcap, hbytes]
      have hpush := (c.lru.pop key).1.push_cap key ⟨manifests, estimateBytes manifests⟩
      unfold pushed pushEntry release
      split
      · rename_i heq
        rw [heq] at hpush
        exact ⟨hpush, rfl⟩
      · rename_i heq
        rw [heq] at hpush
        exact ⟨hpush, rfl⟩
  | invalidate p => exact popAll_caps c _
  | clear => exact ⟨rfl, rfl⟩

/-- **The invariant rule**: bytes and caps are right after every operation. -/
theorem inv_step {maxEntries maxBytes : Nat} {c : BoundedCache K} (h : Inv maxEntries maxBytes c)
    (op : CacheOp K) : Inv maxEntries maxBytes (c.step op) := by
  obtain ⟨hcap, hmax⟩ := step_caps c op
  have hmax' : (c.step op).maxBytes = maxBytes := hmax.trans h.maxBytes
  suffices hrest : (c.step op).Counted
      ∧ (∀ e ∈ (c.step op).lru.entries, e.2.bytes = estimateBytes e.2.manifests)
      ∧ ((c.step op).totalBytes ≤ maxBytes ∨ (c.step op).lru.len = 1) from
    ⟨hrest.1, hrest.2.1, hrest.2.2, hcap.trans h.cap, hmax'⟩
  cases op with
  | get key =>
      have hperm : (c.get key).1.lru.entries.Perm c.lru.entries := by
        cases hp : c.lru.peek key with
        | none => rw [entries_get_of_none hp]
        | some entry =>
            rw [entries_get_of_some hp]
            exact (Lru.perm_others hp).symm
      refine ⟨counted_get h.counted key, fun e he => h.sizes e (hperm.mem_iff.mp he), ?_⟩
      rw [step, totalBytes_get, Lru.len, hperm.length_eq]
      exact h.fits
  | put key manifests =>
      obtain ⟨⟨kept, hkept, hentries⟩, hcounted, hfits⟩ := entries_put h.counted key manifests
      refine ⟨hcounted, fun e he => ?_, hmax' ▸ hfits⟩
      rw [step, hentries] at he
      -- the new entry is measured, those that are kept were
      rcases List.mem_cons.mp he with rfl | he
      · rfl
      · exact h.sizes e ((c.lru.others_sublist key).subset (hkept.subset he))
  | invalidate p =>
      obtain ⟨hentries, hcounted⟩ := entries_invalidate h.counted p
      have hsub : (c.invalidate p).lru.entries.Sublist c.lru.entries := by
        rw [hentries]
        exact List.filter_sublist
      refine ⟨hcounted, fun e he => h.sizes e (hsub.subset he), ?_⟩
      rw [step, hcounted]
      have hle : bytesOf (c.invalidate p).lru.entries ≤ bytesOf c.lru.entries :=
        bytesOf_sublist hsub
      rw [← show c.totalBytes = bytesOf c.lru.entries from h.counted] at hle
      have hlen := hsub.length_le
      rcases h.fits with hf | hf
      · omega
      · -- one entry at most: it is gone, or it is the one that may be too big
        unfold Lru.len at hf ⊢
        rcases Nat.eq_zero_or_pos (c.invalidate p).lru.entries.length with h0 | hpos
        · rw [List.eq_nil_of_length_eq_zero h0]
          exact .inl (Nat.zero_le _)
        · omega
  | clear =>
      refine ⟨rfl, fun e he => ?_, .inl (Nat.zero_le _)⟩
      simp [step, clear, Lru.clear, Lru.keep] at he

theorem inv_exec (maxEntries maxBytes : Nat) (ops : List (CacheOp K)) :
    Inv maxEntries maxBytes (exec step (new maxEntries maxBytes) ops) :=
  exec_inv (P := Inv maxEntries maxBytes) (fun _ op h => inv_step h op) (inv_new maxEntries maxBytes) ops

/-! ## The order of use -/

/-- Keys in the order in which they were last looked up or put, most recent first. -/
def recentUse (ops : List (CacheOp K)) : List K :=
  ops.foldl (fun used op => match op with
    | .get key | .put key _ => key :: used.filter (· ≠ key)
    | .invalidate _ | .clear => used) []

/-- **The entries of a cache stand in the order of their last use.** -/
theorem inUseOrder_exec (maxEntries maxBytes : Nat) (ops : List (CacheOp K)) :
    InUseOrder (recentUse ops) (exec step (new maxEntries maxBytes) ops).lru.keys := by
  induction ops using List.reverseRecOn with
  | nil => rfl
  | append_singleton ops op ih =>
      have hcounted := (inv_exec maxEntries maxBytes ops).counted
      rw [exec_snoc]
      generalize exec step (new maxEntries maxBytes) ops = c at *
      have hnd : c.lru.keys.Nodup := c.lru.nodup
      have hrecent : ∀ key, (op = .get key ∨ ∃ manifests, op = .put key manifests) →
          recentUse (ops ++ [op]) = key :: (recentUse ops).filter (· ≠ key) := by
        rintro key (rfl | ⟨manifests, rfl⟩) <;> simp [recentUse, List.foldl_append]
      cases op with
      | get key =>
          have hop := hrecent key (.inl rfl)
          cases hp : c.lru.peek key with
          | none =>
              rw [step, entries_get_of_none hp]
              rw [hop]
              exact ih.used (Lru.peek_eq_none.mp hp)
          | some entry =>
              rw [step, Lru.keys, entries_get_of_some hp, hop]
              refine InUseOrder.cons (ih.sublist hnd ?_) (c.lru.others_notMem key)
              exact (c.lru.others_sublist key).map _
      | put key manifests =>
          obtain ⟨⟨kept, hkept, hentries⟩, -⟩ := entries_put hcounted key manifests
          rw [step, Lru.keys, hentries, hrecent key (.inr ⟨manifests, rfl⟩)]
          have hsub : (kept.map Prod.fst).Sublist ((c.lru.others key).map Prod.fst) :=
            hkept.sublist.map _
          refine InUseOrder.cons (ih.sublist hnd ?_) ?_
          · exact hsub.trans ((c.lru.others_sublist key).map _)
          · exact fun hm => c.lru.others_notMem key (hsub.subset hm)
      | invalidate p =>
          have hop : recentUse (ops ++ [.invalidate p]) = recentUse ops := by
            simp [recentUse, List.foldl_append]
          rw [hop]
          refine ih.sublist hnd ?_
          rw [step, Lru.keys, (entries_invalidate hcounted p).1]
          exact List.filter_sublist.map _
      | clear => exact (List.filter_eq_nil_iff.mpr (by simp [step, clear, Lru.clear, Lru.keep, Lru.keys])).symm

/-! ## What a lookup finds -/

/-- The last put for a key was of these manifests, and the key has been there since. -/
def HeldSince (start : BoundedCache K) (ops : List (CacheOp K)) (key : K) (manifests : List Manifest) :
    Prop :=
  ∃ before since, ops = before ++ .put key manifests :: since
    ∧ (∀ m, .put key m ∉ since)
    ∧ ∀ mid, mid <+: since →
      key ∈ (exec step start (before ++ .put key manifests :: mid)).lru.keys

/-- One more operation: the key is there after it, and it is the put or leaves the last put. -/
theorem heldSince_snoc {start : BoundedCache K} {ops : List (CacheOp K)} {op : CacheOp K} {key : K}
    {manifests : List Manifest} : HeldSince start (ops ++ [op]) key manifests ↔
      key ∈ (exec step start (ops ++ [op])).lru.keys
        ∧ (op = .put key manifests ∨ (∀ m, op ≠ .put key m) ∧ HeldSince start ops key manifests) := by
  refine ⟨?_, ?_⟩
  · rintro ⟨before, since, hops, hlast, hthere⟩
    rcases List.eq_nil_or_concat since with rfl | ⟨since, op', rfl⟩
    · obtain ⟨rfl, hop⟩ := List.append_inj' hops rfl
      refine ⟨?_, .inl (List.singleton_inj.mp hop)⟩
      rw [hops]
      exact hthere [] (List.prefix_refl _)
    · rw [List.concat_eq_append] at hops hlast hthere
      rw [← List.cons_append, ← List.append_assoc] at hops
      obtain ⟨rfl, hop⟩ := List.append_inj' hops rfl
      obtain rfl := List.singleton_inj.mp hop
      refine ⟨?_, .inr ⟨fun m hm => hlast m (by simp [hm]), before, since, rfl,
        fun m hm => hlast m (List.mem_append_left _ hm), fun mid hmid => ?_⟩⟩
      · have hall := hthere (since ++ [op]) (List.prefix_refl _)
        rwa [← List.cons_append, ← List.append_assoc] at hall
      · exact hthere mid (hmid.trans (List.prefix_append _ _))
  · rintro ⟨hkey, rfl | ⟨hnot, before, since, rfl, hlast, hthere⟩⟩
    · refine ⟨ops, [], rfl, by simp, fun mid hmid => ?_⟩
      rw [List.prefix_nil.mp hmid]
      exact hkey
    · refine ⟨before, since ++ [op], by simp, fun m hm => ?_, fun mid hmid => ?_⟩
      · rcases List.mem_append.mp hm with hm | hm
        · exact hlast m hm
        · exact hnot m (List.mem_singleton.mp hm).symm
      · rcases List.prefix_concat_iff.mp hmid with rfl | hmid
        · rwa [List.append_assoc, List.cons_append] at hkey
        · exact hthere mid hmid

/-- What a key holds after an operation, if it is there at all. -/
theorem peek_step {c : BoundedCache K} (hc : c.Counted) {op : CacheOp K} {key : K}
    (hkey : key ∈ (c.step op).lru.keys) {manifests : List Manifest} :
    ((c.step op).lru.peek key).map Entry.manifests = some manifests ↔
      op = .put key manifests ∨
        (∀ m, op ≠ .put key m) ∧ (c.lru.peek key).map Entry.manifests = some manifests := by
  -- an operation that only drops or moves entries
  have hsame : ∀ {es : List (K × Entry)}, (c.step op).lru.entries = es →
      (∀ e ∈ es, e.1 = key → e ∈ c.lru.entries) → (∀ m, op ≠ .put key m) →
      (((c.step op).lru.peek key).map Entry.manifests = some manifests ↔
        op = .put key manifests ∨
          (∀ m, op ≠ .put key m) ∧ (c.lru.peek key).map Entry.manifests = some manifests) := by
    intro es hes hsub hop
    obtain ⟨entry, hentry⟩ := Option.isSome_iff_exists.mp (Lru.peek_isSome.mpr hkey)
    have hmem : (key, entry) ∈ c.lru.entries :=
      hsub _ (hes ▸ Lru.peek_eq_some.mp hentry) rfl
    rw [hentry, Lru.peek_eq_some.mpr hmem]
    simp [hop]
  cases op with
  | get key' =>
      cases hp : c.lru.peek key' with
      | none =>
          have hlru : (c.step (.get key')).lru = c.lru := entries_get_of_none hp
          exact hsame (congrArg Lru.entries hlru) (fun e he _ => he) (by simp)
      | some entry =>
          have hentries := entries_get_of_some hp
          exact hsame hentries (fun e he _ => (Lru.perm_others hp).mem_iff.mpr he) (by simp)
  | put key' manifests' =>
      obtain ⟨⟨kept, hkept, hentries⟩, -⟩ := entries_put hc key' manifests'
      by_cases hk : key' = key
      · subst hk
        have hpeek : (c.step (.put key' manifests')).lru.peek key'
            = some ⟨manifests', estimateBytes manifests'⟩ :=
          Lru.peek_eq_some.mpr (by rw [step, hentries]; exact List.mem_cons_self)
        rw [hpeek]
        simp
      · refine hsame hentries (fun e he hkey => ?_) (by simp [hk])
        rcases List.mem_cons.mp he with rfl | he
        · exact absurd hkey hk
        · exact (c.lru.others_sublist key').subset (hkept.subset he)
  | invalidate p =>
      refine hsame (entries_invalidate hc p).1 (fun e he _ => ?_) (by simp)
      exact (List.mem_filter.mp he).1
  | clear => simp [step, clear, Lru.clear, Lru.keep, Lru.keys] at hkey

/-- **A lookup finds what was put last and has stayed since.** -/
theorem get_iff_heldSince (maxEntries maxBytes : Nat) (ops : List (CacheOp K)) (key : K)
    (manifests : List Manifest) :
    ((exec step (new maxEntries maxBytes) ops).get key).2 = some manifests ↔
      HeldSince (new maxEntries maxBytes) ops key manifests := by
  rw [get_snd]
  induction ops using List.reverseRecOn with
  | nil =>
      refine ⟨fun h => ?_, ?_⟩
      · simp [new, Lru.new, Lru.peek] at h
      · rintro ⟨before, since, h, -⟩
        simp at h
  | append_singleton ops op ih =>
      rw [heldSince_snoc, ← ih]
      have hcounted := (inv_exec maxEntries maxBytes ops).counted
      rw [exec_snoc]
      by_cases hkey : key ∈ ((exec step (new maxEntries maxBytes) ops).step op).lru.keys
      · rw [peek_step hcounted hkey]
        exact ⟨fun h => ⟨hkey, h⟩, And.right⟩
      · rw [Lru.peek_eq_none.mpr hkey]
        simp [hkey]

/-! ## A bounded LRU map -/

/-- A cache after a run from empty, as a bounded LRU map. -/
structure BoundedLru (maxEntries maxBytes : Nat) (ops : List (CacheOp K)) (c : BoundedCache K) : Prop where
  /-- The total is the sum of the sizes stored, each the size of its manifests. -/
  total : c.totalBytes = (c.lru.entries.map fun e => estimateBytes e.2.manifests).sum
  count : c.lru.len ≤ c.maxEntries ∧ c.maxEntries = max maxEntries 1
  bytes : c.totalBytes ≤ maxBytes ∨ c.lru.len = 1
  lookup : ∀ key manifests, (c.get key).2 = some manifests ↔
    HeldSince (new maxEntries maxBytes) ops key manifests
  order : InUseOrder (recentUse ops) c.lru.keys
  /-- A put puts its entry in front, and what goes was used before all that stays. -/
  evicts : ∀ key manifests, ∃ kept gone, c.lru.others key = kept ++ gone
    ∧ (c.put key manifests).lru.entries = (key, ⟨manifests, estimateBytes manifests⟩) :: kept
  removes : ∀ p, (c.invalidate p).lru.entries = c.lru.entries.filter (fun e => !p e.1)

theorem boundedLru_exec (maxEntries maxBytes : Nat) (ops : List (CacheOp K)) :
    BoundedLru maxEntries maxBytes ops (exec step (new maxEntries maxBytes) ops) := by
  have hinv := inv_exec maxEntries maxBytes ops
  refine ⟨?_, ⟨(exec step (new maxEntries maxBytes) ops).lru.bounded, hinv.cap⟩, hinv.fits,
    get_iff_heldSince maxEntries maxBytes ops, inUseOrder_exec maxEntries maxBytes ops, ?_, ?_⟩
  · rw [hinv.counted, bytesOf]
    exact congrArg List.sum (List.map_congr_left hinv.sizes)
  · intro key manifests
    obtain ⟨⟨kept, ⟨gone, hgone⟩, hentries⟩, -⟩ := entries_put hinv.counted key manifests
    exact ⟨kept, gone, hgone.symm, hentries⟩
  · exact fun p => (entries_invalidate hinv.counted p).1

end BoundedCache

/-! ## The two caches -/

/-- What an operation of the plugin cache is to the cache below. -/
def Cache.Op.parts : Cache.Op → List (CacheOp CacheKey)
  | .get key => [.get key]
  | .put key manifests => [.put key manifests]
  | .stats => []
  | .clear => [.clear]

/-- What an operation of the application cache is to the cache below. -/
def AppCache.Op.parts : AppCache.Op → List (CacheOp AppCacheKey)
  | .get key => [.get key]
  | .put key manifests => [.put key manifests]
  | .invalidateApp appId => [.invalidate fun k => k.appId = appId]
  | .warm entries => entries.map fun e => .put e.1 e.2
  | .stats => []
  | .clear => [.clear]

theorem Cache.exec_parts (c : Cache) (ops : List Cache.Op) :
    exec Cache.step c ops = exec BoundedCache.step c (ops.flatMap Cache.Op.parts) := by
  induction ops generalizing c with
  | nil => rfl
  | cons op ops ih =>
      rw [exec_cons, List.flatMap_cons, exec_append, ih]
      cases op <;> rfl

theorem AppCache.inner_warm (c : AppCache) (entries : List (AppCacheKey × List Manifest)) :
    (c.warm entries).inner = exec BoundedCache.step c.inner (entries.map fun e => .put e.1 e.2) := by
  induction entries generalizing c with
  | nil => rfl
  | cons e entries ih => exact ih _

theorem AppCache.exec_parts (c : AppCache) (ops : List AppCache.Op) :
    (exec AppCache.step c ops).inner
      = exec BoundedCache.step c.inner (ops.flatMap AppCache.Op.parts) := by
  induction ops generalizing c with
  | nil => rfl
  | cons op ops ih =>
      rw [exec_cons, List.flatMap_cons, exec_append, ih]
      cases op with
      | warm entries => rw [step, inner_warm]; rfl
      | get | put | invalidateApp | stats | clear => rfl

/--
**The render caches are bounded LRU maps.**

After any operations on a cache with any caps: the total is that of the entries, both
caps are kept (but for the one entry that is always kept), a lookup finds what was put
last and has stayed since, the entries stand in the order of their last use, a put
evicts from the end of it, and an invalidation removes exactly the entries of its
application.
-/
theorem render_caches_bounded_lru (maxEntries maxBytes : Nat) :
    (∀ ops : List Cache.Op, BoundedCache.BoundedLru maxEntries maxBytes (ops.flatMap Cache.Op.parts)
      (exec Cache.step (BoundedCache.new maxEntries maxBytes) ops))
    ∧ ∀ ops : List AppCache.Op,
      BoundedCache.BoundedLru maxEntries maxBytes (ops.flatMap AppCache.Op.parts)
        (exec AppCache.step (.new maxEntries maxBytes) ops).inner
      ∧ ∀ appId, let c := exec AppCache.step (.new maxEntries maxBytes) ops
        (c.invalidateApp appId).1.inner.lru.entries
          = c.inner.lru.entries.filter (fun e => e.1.appId ≠ appId)
        ∧ (c.invalidateApp appId).2
          = (c.inner.lru.entries.filter fun e => e.1.appId = appId).length := by
  refine ⟨fun ops => ?_, fun ops => ?_⟩
  · rw [Cache.exec_parts]
    exact BoundedCache.boundedLru_exec maxEntries maxBytes _
  · have hlru : BoundedCache.BoundedLru maxEntries maxBytes (ops.flatMap AppCache.Op.parts)
        (exec AppCache.step (.new maxEntries maxBytes) ops).inner := by
      rw [AppCache.exec_parts]
      exact BoundedCache.boundedLru_exec maxEntries maxBytes _
    refine ⟨hlru, fun appId => ⟨?_, ?_⟩⟩
    · refine (hlru.removes fun k => k.appId = appId).trans (List.filter_congr fun e _ => ?_)
      simp
    · dsimp only [AppCache.invalidateApp]
      rw [Lru.keys, List.filter_map, List.length_map]
      rfl

end SynchrotronCD.Render
