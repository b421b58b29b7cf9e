import SynchrotronCD.Db.HistoryPruning
import SynchrotronCD.Db.SyncRevisions
import SynchrotronCD.Plugins.CacheFronts

/-!
# The app cache across a restart

The in-memory cache of renders vanishes with its process. Each render is also written to a
table, under the key of the cache and with the time of the write, and an invalidation deletes
the application's rows. At startup the rows written last are loaded, oldest first, and put into
a new cache.

Nothing calls these functions yet but their tests; they are put together here as their
documentation describes it.

The times are texts, to a millisecond. As long as the clock moves on between two writes, what is
loaded are the renders written last that have not been invalidated since, with the manifests
they were written with (`loads_iff`), and the warmed cache holds as many of them as fit.
-/

namespace SynchrotronCD.Db.AppCacheRows

open Lib Render HistoryPruning
open List (Forall₂)

/-! ## Times as text -/

/-- A time to a millisecond, since the epoch and in a year of four digits. -/
structure Instant where
  ms : Nat
  bounded : ms ≤ 253402300799999

namespace Instant

def nanos (t : Instant) : Int := t.ms * 1000000

/-- `strftime('%Y-%m-%dT%H:%M:%fZ', 'now')`. -/
def text (t : Instant) : String :=
  String.ofList (padded 4 (dateOf t.nanos).year.natAbs ++ monthDay (dateOf t.nanos)
    ++ 'T' :: clock (secondOfDay t.nanos) ++ '.' :: padded 3 (t.ms % 1000) ++ ['Z'])

theorem year_bounds (t : Instant) :
    0 ≤ (dateOf t.nanos).year ∧ (dateOf t.nanos).year.natAbs < 10 ^ 4 := by
  have hspec := yearOf_spec (t.nanos / nanosPerDay + epochDay)
  have hbounds := yearStart_bounds (yearOf (t.nanos / nanosPerDay + epochDay))
  have hbounds' := yearStart_bounds (yearOf (t.nanos / nanosPerDay + epochDay) + 1)
  have hday : 0 ≤ t.nanos / nanosPerDay ∧ t.nanos / nanosPerDay ≤ 2932896 := by
    have hbounded := t.bounded
    unfold nanos nanosPerDay
    omega
  show 0 ≤ yearOf _ ∧ (yearOf _).natAbs < 10 ^ 4
  unfold epochDay at *
  omega

theorem secondOfDay_lt (t : Int) : secondOfDay t < 86400 := by
  unfold secondOfDay nanosPerDay
  omega

theorem clock_lt {s u : Nat} (hs : s < 86400) (hu : u < 86400) (h : s < u) : clock s < clock u := by
  unfold clock
  simp only [List.append_assoc, List.cons_append]
  rw [append_lt_append (by simp), List.cons_lt_cons_iff, append_lt_append (by simp),
    List.cons_lt_cons_iff, padded_lt_iff (by omega) (by omega), padded_lt_iff (by omega) (by omega),
    padded_lt_iff (by omega) (by omega), padded_eq_iff (by omega) (by omega),
    padded_eq_iff (by omega) (by omega)]
  simp only [Char.lt_irrefl, true_and, false_or]
  omega

/-- Later times have greater texts. -/
theorem text_lt {t u : Instant} (h : t.ms < u.ms) : t.text < u.text := by
  have htyear := t.year_bounds
  have huyear := u.year_bounds
  unfold text
  rw [ofList_lt]
  simp only [List.append_assoc, List.cons_append]
  rw [append_lt_append (by simp), append_lt_append (by simp [monthDay]), List.cons_lt_cons_iff,
    append_lt_append (by simp [clock]), List.cons_lt_cons_iff, append_lt_append (by simp),
    padded_lt_iff htyear.2 huyear.2, padded_eq_iff htyear.2 huyear.2, monthDay_lt,
    padded_lt_iff (show t.ms % 1000 < 10 ^ 3 by omega) (show u.ms % 1000 < 10 ^ 3 by omega)]
  simp only [Char.lt_irrefl, true_and, false_or]
  by_cases hday : t.nanos / nanosPerDay < u.nanos / nanosPerDay
  · -- an earlier date decides
    have hbefore : (dateOf t.nanos).Before (dateOf u.nanos) := before_dateOf.mpr hday
    rcases hbefore with hyear | ⟨hyear, hrest⟩
    · exact .inl (by omega)
    · exact .inr ⟨by rw [hyear], .inl hrest⟩
  · have hsame : t.nanos / nanosPerDay = u.nanos / nanosPerDay := by
      unfold nanos nanosPerDay at *
      omega
    have hdate : dateOf t.nanos = dateOf u.nanos := by
      unfold dateOf
      rw [hsame]
    rw [hdate]
    refine .inr ⟨rfl, .inr ⟨rfl, ?_⟩⟩
    by_cases hsecond : secondOfDay t.nanos < secondOfDay u.nanos
    · exact .inl (clock_lt (secondOfDay_lt _) (secondOfDay_lt _) hsecond)
    · have heq : secondOfDay t.nanos = secondOfDay u.nanos ∧ t.ms % 1000 < u.ms % 1000 := by
        unfold secondOfDay nanos nanosPerDay at *
        omega
      rw [heq.1]
      exact .inr ⟨rfl, .inl heq.2⟩

end Instant

/-! ## The rows -/

structure AppCacheRow where
  appId : String
  commitHash : String
  paramsHash : List UInt8
  manifestsJson : String
  bytes : Nat
  updatedAt : String
deriving DecidableEq, Repr

/-- The primary key. -/
def AppCacheRow.key (r : AppCacheRow) : AppCacheKey := ⟨r.appId, r.commitHash, r.paramsHash⟩

/-- Insert or replace a single cache entry. -/
def saveAppCacheEntry [FloatText] (rows : List AppCacheRow) (key : AppCacheKey)
    (manifests : List Manifest) (now : Instant) : List AppCacheRow × Except DbError Unit :=
  match manifestsToString manifests with
  | none => (rows, .error (.sqlite "serialize manifests for cache"))
  | some json =>
    (⟨key.appId, key.commitHash, key.paramsHash, json, json.utf8ByteSize, now.text⟩
      :: rows.filter (fun r => r.key ≠ key), .ok ())

/-- Drop every persisted entry for an app, and say how many there were. -/
def invalidateAppCache (rows : List AppCacheRow) (appId : String) : List AppCacheRow × Nat :=
  (rows.filter fun r => r.appId ≠ appId, (rows.filter fun r => r.appId = appId).length)

/-- `LIMIT ?1`, with `limit as i64`: there is no limit where that is negative. -/
def limited {α : Type} (limit : UInt64) (xs : List α) : List α :=
  if limit.toNat < 2 ^ 63 then xs.take limit.toNat else xs

theorem limited_sublist {α : Type} (limit : UInt64) (xs : List α) :
    (limited limit xs).Sublist xs := by
  unfold limited
  split
  · exact List.take_sublist _ _
  · exact List.Sublist.refl _

theorem front_limited {α : Type} {xs ys : List α} {limit : UInt64} (h : xs <+: ys)
    (hlen : xs.length ≤ limit.toNat) : xs <+: limited limit ys := by
  unfold limited
  split
  · exact List.prefix_take_iff.mpr ⟨h, hlen⟩
  · exact h

/-- The rows that the query may yield: in the descending order of their times the first so many,
and then in the ascending one. The order of equal times is left to SQLite, each time anew. -/
def Selects (rows : List AppCacheRow) (limit : UInt64) (selected : List AppCacheRow) : Prop :=
  ∃ desc, desc.Perm rows ∧ desc.Pairwise (fun r s => ¬ r.updatedAt < s.updatedAt)
    ∧ selected.Perm (limited limit desc) ∧ selected.Pairwise (fun r s => ¬ s.updatedAt < r.updatedAt)

section

variable [JsonReader]

def AppCacheRow.decode (r : AppCacheRow) : Except DbError (AppCacheKey × List Manifest) :=
  if r.paramsHash.length ≠ 32 then
    .error (.sqlite "params_hash column is not 32 bytes — schema drift?")
  else
    match manifestsFromStr r.manifestsJson with
    | none => .error (.sqlite "deserialize manifests from cache row")
    | some manifests => .ok (r.key, manifests)

/-- What loading the most recently written entries may return, oldest first. -/
def LoadsRecent (rows : List AppCacheRow) (limit : UInt64)
    (result : Except DbError (List (AppCacheKey × List Manifest))) : Prop :=
  ∃ selected, Selects rows limit selected ∧ selected.mapM AppCacheRow.decode = result

end

/-- Rows of distinct times are selected in one way. -/
theorem selects_iff {rows : List AppCacheRow} (limit : UInt64)
    (hdesc : rows.Pairwise fun r s => s.updatedAt < r.updatedAt) (selected : List AppCacheRow) :
    Selects rows limit selected ↔ selected = (limited limit rows).reverse := by
  have hnot : rows.Pairwise fun r s => ¬ r.updatedAt < s.updatedAt :=
    hdesc.imp fun h => String.lt_asymm h
  have hone : ∀ r ∈ rows, ∀ s ∈ rows, ¬ r.updatedAt < s.updatedAt → ¬ s.updatedAt < r.updatedAt →
      r = s := by
    intro r hr s hs hrs hsr
    by_contra hne
    let apart (r s : AppCacheRow) : Prop := s.updatedAt < r.updatedAt ∨ r.updatedAt < s.updatedAt
    have : Std.Symm apart := ⟨fun _ _ h => h.symm⟩
    have hapart : rows.Pairwise apart := hdesc.imp fun h => .inl h
    rcases hapart.forall hr hs hne with h | h
    · exact hsr h
    · exact hrs h
  have hsub := limited_sublist limit rows
  refine ⟨?_, ?_⟩
  · rintro ⟨desc, hperm, hdown, hsel, hup⟩
    obtain rfl : desc = rows := hperm.eq_of_pairwise
      (fun r s hr hs => hone r (hperm.subset hr) s hs) hdown hnot
    refine (hsel.trans (List.reverse_perm _).symm).eq_of_pairwise (fun r s hr hs h h' => ?_) hup ?_
    · exact hone r (hsub.subset (hsel.subset hr)) s (hsub.subset (List.mem_reverse.mp hs)) h' h
    · exact List.pairwise_reverse.mpr (hnot.sublist hsub)
  · rintro rfl
    refine ⟨rows, List.Perm.refl _, hnot, List.reverse_perm _, ?_⟩
    exact List.pairwise_reverse.mpr (hnot.sublist hsub)

/-! ## Runs -/

/-- What an application was rendered to; the hash of its parameters has its length. -/
structure RenderResult where
  key : AppCacheKey
  hashed : key.paramsHash.length = 32
  manifests : List Manifest

/-- What happens to the cache and to the rows below it. -/
inductive Event where
  | rendered (r : RenderResult) (now : Instant)
  | lookup (key : AppCacheKey)
  | pluginChanged (appId : String)

/-- What a cache answers. -/
theorem get_iff {c : Render.AppCache} {key : AppCacheKey} {manifests : List Manifest} :
    (c.get key).2 = some manifests ↔
      ∃ entry, (key, entry) ∈ c.inner.lru.entries ∧ entry.manifests = manifests := by
  unfold AppCache.get
  dsimp only
  rw [BoundedCache.get_snd, Option.map_eq_some_iff]
  simp only [Lru.peek_eq_some]

/-- The event in memory. -/
def Event.cacheOp : Event → AppCache.Op
  | .rendered r _ => .put r.key r.manifests
  | .lookup key => .get key
  | .pluginChanged appId => .invalidateApp appId

def Event.time : Event → Option Instant
  | .rendered _ now => some now
  | .lookup _ | .pluginChanged _ => none

def times (es : List Event) : List Instant := es.filterMap Event.time

/-- The clock has moved on between any two writes. -/
def Forward (es : List Event) : Prop := (times es).Pairwise fun t u => t.ms < u.ms

section

variable [FloatText]

/-- The event in the table. -/
def rowsStep (rows : List AppCacheRow) : Event → List AppCacheRow
  | .rendered r now => (saveAppCacheEntry rows r.key r.manifests now).1
  | .lookup _ => rows
  | .pluginChanged appId => (invalidateAppCache rows appId).1

def rowsAfter (es : List Event) : List AppCacheRow := exec rowsStep [] es

/-- The cache of the process that saw these events. -/
def memoryAfter (maxEntries maxBytes : Nat) (es : List Event) :
    Render.AppCache := exec AppCache.step (.new maxEntries maxBytes) (es.map Event.cacheOp)

/-- What was rendered last under each key and not invalidated since, most recent first. -/
def recent (es : List Event) : List (AppCacheKey × Entry) :=
  BoundedCache.recentPuts ((es.map Event.cacheOp).flatMap AppCache.Op.parts)

theorem recent_snoc (es : List Event) (e : Event) : recent (es ++ [e]) = match e with
    | .rendered r _ =>
      BoundedCache.entryOf (r.key, r.manifests) :: (recent es).filter (·.1 ≠ r.key)
    | .lookup _ => recent es
    | .pluginChanged appId => (recent es).filter fun e => !decide (e.1.appId = appId) := by
  unfold recent
  rw [List.map_append, List.flatMap_append]
  cases e <;> exact BoundedCache.recentPuts_snoc _ _

theorem memory_inner (maxEntries maxBytes : Nat) (es : List Event) :
    (memoryAfter maxEntries maxBytes es).inner
      = exec BoundedCache.step (.new maxEntries maxBytes)
        ((es.map Event.cacheOp).flatMap AppCache.Op.parts) :=
  AppCache.exec_parts _ _

end

section

variable [JsonReader]

/-- The text of these manifests is read back as them. -/
def ReadsBack (manifests : List Manifest) : Prop :=
  ∀ m ∈ manifests, ManifestBody.fromValue m.body.value = some m.body ∧ m.body.value.Exact
    ∧ m.body.value.depth + 2 < Value.recursionLimit

theorem ReadsBack.text {ms : List Manifest} (h : ReadsBack ms) :
    ∃ text, manifestsToString ms = some text ∧ manifestsFromStr text = some ms := by
  have hdocs : ∀ m ∈ ms, ∃ j, m.toDoc = some j := by
    intro m hm
    obtain ⟨j, hj, -⟩ := Option.map_eq_some_iff.mp (ManifestBody.fromValue_spec (h m hm).1).1
    exact ⟨m.docWith j, by rw [Manifest.toDoc, hj]; rfl⟩
  obtain ⟨js, hjs⟩ := mapM_eq_some_of_forall hdocs
  have hpairs := mapM_eq_some_iff.mp hjs
  have hreread : Forall₂ (fun m j => Manifest.reread j = some m) ms js :=
    forall₂_imp_mem hpairs fun m hm j hj =>
      Manifest.reread_of_exact hj (h m hm).1 (h m hm).2.1
  refine ⟨String.ofList (Json.arr js).print, by rw [manifestsToString, hjs]; rfl, ?_⟩
  rw [manifestsFromStr_text, if_pos ((depth_texts hpairs).mpr fun m hm => (h m hm).2.2)]
  exact mapM_eq_some_iff.mpr hreread.flip

/-- Every render can be read back. -/
def Durable (es : List Event) : Prop := ∀ r now, .rendered r now ∈ es → ReadsBack r.manifests

/-- A row holds an entry. -/
structure Stores (row : AppCacheRow) (e : AppCacheKey × Entry) : Prop where
  key : row.key = e.1
  decode : row.decode = .ok (e.1, e.2.manifests)

theorem saveAppCacheEntry_ok (rows : List AppCacheRow) (r : RenderResult) (now : Instant)
    (h : ReadsBack r.manifests) : ∃ row,
      saveAppCacheEntry rows r.key r.manifests now
        = (row :: rows.filter (fun s => s.key ≠ r.key), .ok ())
      ∧ row.updatedAt = now.text ∧ Stores row (BoundedCache.entryOf (r.key, r.manifests)) := by
  obtain ⟨text, htext, hread⟩ := h.text
  unfold saveAppCacheEntry
  rw [htext]
  refine ⟨_, rfl, rfl, rfl, ?_⟩
  unfold AppCacheRow.decode
  rw [if_neg (not_not.mpr r.hashed)]
  dsimp only
  rw [hread]
  rfl

/-- The rows are the recent renders, in the order of their times. -/
structure Mirrors (es : List Event) : Prop where
  rows : Forall₂ Stores (rowsAfter es) (recent es)
  order : (rowsAfter es).Pairwise fun r s => s.updatedAt < r.updatedAt
  times : ∀ r ∈ rowsAfter es, ∃ t ∈ times es, r.updatedAt = t.text

/-- **The table follows the cache** in every run, if the clock moves on. -/
theorem mirrors {es : List Event} (hforward : Forward es) (hdurable : Durable es) : Mirrors es := by
  induction es using List.reverseRecOn with
  | nil => exact ⟨.nil, .nil, nofun⟩
  | append_singleton es e ih =>
      have htimes : times (es ++ [e]) = times es ++ e.time.toList := by
        unfold times
        rw [List.filterMap_append]
        cases e <;> rfl
      unfold Forward at hforward
      rw [htimes, List.pairwise_append] at hforward
      obtain ⟨hbefore, -, hlater⟩ := hforward
      obtain ⟨hrows, horder, hknown⟩ :=
        ih hbefore fun r now hmem => hdurable r now (List.mem_append_left _ hmem)
      have hknown' : ∀ r ∈ rowsAfter es, ∃ t ∈ times (es ++ [e]), r.updatedAt = t.text := by
        intro r hr
        obtain ⟨t, ht, htext⟩ := hknown r hr
        exact ⟨t, htimes ▸ List.mem_append_left _ ht, htext⟩
      have hrec := recent_snoc es e
      have hafter : rowsAfter (es ++ [e]) = rowsStep (rowsAfter es) e := exec_snoc _ _ _
      cases e with
      | lookup key => exact ⟨by rwa [hafter, hrec], by rwa [hafter], by rwa [hafter]⟩
      | pluginChanged appId =>
          -- invalidating takes the same entries from both
          have hsub : (rowsStep (rowsAfter es) (.pluginChanged appId)).Sublist (rowsAfter es) :=
            List.filter_sublist
          refine ⟨?_, hafter ▸ horder.sublist hsub, fun r hr => hknown' r (hsub.subset (hafter ▸ hr))⟩
          rw [hafter, hrec]
          refine List.rel_filter (fun row e hrow => ?_) hrows
          have happ : row.appId = e.1.appId := congrArg AppCacheKey.appId hrow.key
          simp [happ]
      | rendered r now =>
          obtain ⟨row, hsave, htext, hstores⟩ := saveAppCacheEntry_ok (rowsAfter es) r now
            (hdurable r now (List.mem_append_right _ List.mem_cons_self))
          rw [rowsStep, hsave] at hafter
          dsimp only at hafter hrec
          refine ⟨?_, ?_, ?_⟩
          · rw [hafter, hrec]
            refine .cons hstores (List.rel_filter (fun row e hrow => ?_) hrows)
            simp [hrow.key]
          · -- the clock has moved on, so the saved row sorts first
            rw [hafter, List.pairwise_cons]
            refine ⟨fun s hs => ?_, horder.sublist List.filter_sublist⟩
            obtain ⟨t, ht, htime⟩ := hknown s (List.mem_of_mem_filter hs)
            rw [htext, htime]
            exact Instant.text_lt (hlater t ht now List.mem_cons_self)
          · rw [hafter]
            intro s hs
            rcases List.mem_cons.mp hs with rfl | hs
            · exact ⟨now, htimes ▸ List.mem_append_right _ List.mem_cons_self, htext⟩
            · exact hknown' s (List.mem_of_mem_filter hs)

/-! ## What is loaded -/

theorem mapM_decode {rows : List AppCacheRow} {es : List (AppCacheKey × Entry)}
    (h : Forall₂ Stores rows es) :
    rows.mapM AppCacheRow.decode = .ok (es.map fun e => (e.1, e.2.manifests)) := by
  induction h with
  | nil => rfl
  | cons hrow _ ih =>
      rw [List.mapM_cons, hrow.decode, ih]
      rfl

theorem forall₂_limited {rows : List AppCacheRow} {es : List (AppCacheKey × Entry)}
    (limit : UInt64) (h : Forall₂ Stores rows es) :
    Forall₂ Stores (limited limit rows) (limited limit es) := by
  unfold limited
  split
  · exact List.forall₂_take _ h
  · exact h

/-- What is handed to the new cache: the most recent renders, oldest first. -/
def warmUp (limit : UInt64) (es : List Event) : List (AppCacheKey × List Manifest) :=
  ((limited limit (recent es)).map fun e => (e.1, e.2.manifests)).reverse

/-- **What is loaded**, however SQLite orders equal times: there are none. -/
theorem loads_iff {es : List Event} (hforward : Forward es) (hdurable : Durable es) (limit : UInt64)
    (result : Except DbError (List (AppCacheKey × List Manifest))) :
    LoadsRecent (rowsAfter es) limit result ↔ result = .ok (warmUp limit es) := by
  obtain ⟨hrows, horder, -⟩ := mirrors hforward hdurable
  have hdecode := mapM_decode (List.rel_reverse (forall₂_limited limit hrows))
  rw [List.map_reverse] at hdecode
  refine ⟨?_, fun h => ⟨_, (selects_iff limit horder _).mpr rfl, hdecode.trans h.symm⟩⟩
  rintro ⟨selected, hselected, rfl⟩
  rw [(selects_iff limit horder selected).mp hselected]
  exact hdecode

/-- The cache of the next process, warmed with what was loaded. -/
def warmed (maxEntries maxBytes : Nat) (loaded : List (AppCacheKey × List Manifest)) :
    Render.AppCache := (Render.AppCache.new maxEntries maxBytes).warm loaded

theorem warmed_recent (maxEntries maxBytes : Nat) (limit : UInt64) (es : List Event) :
    LongestFront (FitsIn (max maxEntries 1) maxBytes) (limited limit (recent es))
      (warmed maxEntries maxBytes (warmUp limit es)).inner.lru.entries := by
  have hsub := limited_sublist limit (recent es)
  have hkeys : ((warmUp limit es).map Prod.fst).Nodup := by
    unfold warmUp
    rw [List.map_reverse, List.nodup_reverse, List.map_map]
    exact (hsub.map Prod.fst).nodup (BoundedCache.recentPuts_nodup _)
  have hlongest := BoundedCache.warmed_longest maxEntries maxBytes hkeys
  have hgiven : ((warmUp limit es).map BoundedCache.entryOf).reverse = limited limit (recent es) := by
    unfold warmUp
    rw [List.map_reverse, List.reverse_reverse, List.map_map]
    refine (List.map_congr_left fun e he => ?_).trans (List.map_id _)
    exact BoundedCache.recentPuts_entryOf _ e (hsub.subset he)
  rw [hgiven] at hlongest
  unfold warmed
  rw [AppCache.inner_warm]
  exact hlongest

/--
**A restart restores what was rendered last.**

If the clock moved on between any two writes and every render can be read back: whatever way
SQLite orders the rows, the entries that are loaded are the last `limit` renders not replaced or
invalidated since, with their manifests and oldest first, and the warmed cache holds the longest
front of them, the last one first, that fits its two bounds.
-/
theorem restart_restores {es : List Event} (hforward : Forward es) (hdurable : Durable es)
    (limit : UInt64) (maxEntries maxBytes : Nat) :
    (∀ result, LoadsRecent (rowsAfter es) limit result ↔ result = .ok (warmUp limit es))
    ∧ LongestFront (FitsIn (max maxEntries 1) maxBytes) (limited limit (recent es))
      (warmed maxEntries maxBytes (warmUp limit es)).inner.lru.entries :=
  ⟨loads_iff hforward hdurable limit, warmed_recent maxEntries maxBytes limit es⟩

/-- **What a restart keeps** of a cache of the same bounds. -/
structure Restored (es : List Event) (maxEntries maxBytes : Nat) (limit : UInt64)
    (memory restarted : Render.AppCache) : Prop where
  /-- Nothing is found but what was rendered last. -/
  sound : ∀ key manifests, (restarted.get key).2 = some manifests →
    ∃ e ∈ recent es, e.1 = key ∧ e.2.manifests = manifests
  /-- Where nothing was looked up, all that was held is held again, in the same order. -/
  front : (∀ key, .lookup key ∉ es) → max maxEntries 1 ≤ limit.toNat →
    memory.inner.lru.entries <+: restarted.inner.lru.entries
  /-- Where all renders fit, all that was found is found again, whatever was looked up. -/
  all : FitsIn (max maxEntries 1) maxBytes (recent es) → (recent es).length ≤ limit.toNat →
    ∀ key manifests, (memory.get key).2 = some manifests →
      (restarted.get key).2 = some manifests

/--
**A restart keeps what the cache held.**

The rows are loaded, in whatever order SQLite has for equal times, and a lookup then finds
nothing but what was rendered last under its key. If as many rows are loaded as the cache has
places, all that was held before is held again and in the same order of use, unless a lookup
changed that order; and if nothing has to be dropped, everything found before is found again.
-/
theorem restart_keeps {es : List Event} (hforward : Forward es) (hdurable : Durable es)
    (limit : UInt64) (maxEntries maxBytes : Nat) :
    ∀ result, LoadsRecent (rowsAfter es) limit result → ∃ loaded, result = .ok loaded
      ∧ Restored es maxEntries maxBytes limit (memoryAfter maxEntries maxBytes es)
        (warmed maxEntries maxBytes loaded) := by
  intro result hload
  refine ⟨warmUp limit es, (loads_iff hforward hdurable limit result).mp hload, ?_⟩
  have hwarmed := warmed_recent maxEntries maxBytes limit es
  refine ⟨?_, ?_, ?_⟩
  · intro key manifests hget
    obtain ⟨entry, hmem, rfl⟩ := get_iff.mp hget
    have hrecent := (limited_sublist limit _).subset (hwarmed.front.subset hmem)
    exact ⟨(key, entry), hrecent, rfl, rfl⟩
  · intro hnone hlimit
    have hops : ∀ key, .get key ∉ (es.map Event.cacheOp).flatMap AppCache.Op.parts := by
      intro key hmem
      obtain ⟨op, hop, hpart⟩ := List.mem_flatMap.mp hmem
      obtain ⟨e, he, rfl⟩ := List.mem_map.mp hop
      cases e with
      | lookup key' => exact hnone key' he
      | rendered | pluginChanged => simp [Event.cacheOp, AppCache.Op.parts] at hpart
    have hfront := BoundedCache.front_recentPuts maxEntries maxBytes hops
    have hfits := BoundedCache.fitsIn_exec maxEntries maxBytes
      ((es.map Event.cacheOp).flatMap AppCache.Op.parts)
    rw [memory_inner]
    exact hwarmed.above (front_limited hfront (Nat.le_trans hfits.1 hlimit)) hfits
  · intro hfits hlen key manifests hget
    obtain ⟨entry, hmem, rfl⟩ := get_iff.mp hget
    rw [memory_inner] at hmem
    have hall : limited limit (recent es) = recent es :=
      ((front_limited (List.prefix_refl _) hlen).eq_of_length_le
        (limited_sublist limit _).length_le).symm
    rw [hall] at hwarmed
    refine get_iff.mpr ⟨entry, ?_, rfl⟩
    rw [hwarmed.eq_of_fits hfits]
    exact BoundedCache.mem_recentPuts maxEntries maxBytes _ _ hmem

end

/-! ### A restart of the shop's cache -/

def settingsRender (appId commit marker : String) : RenderResult where
  key := ⟨appId, commit, List.replicate 32 0⟩
  hashed := rfl
  manifests := [configMap "settings" marker]

/-- Two commits of the shop and one of the blog, whose plugin is then changed. -/
def shopEvents : List Event :=
  [.rendered (settingsRender "shop" "c1" "v1") ⟨1000, by omega⟩,
    .rendered (settingsRender "blog" "b1" "v1") ⟨1500, by omega⟩,
    .pluginChanged "blog",
    .rendered (settingsRender "shop" "c2" "v2") ⟨2000, by omega⟩]

theorem settings_readsBack (marker : String) :
    @ReadsBack .ofBits [configMap "settings" marker] := by
  intro m hm
  obtain rfl := List.mem_singleton.mp hm
  refine ⟨rfl, @Value.Exact.mk .ofBits _ rfl fun _ _ => rfl, ?_⟩
  show (2 : Nat) + 2 < 128
  omega

theorem shop_durable : @Durable .ofBits shopEvents := by
  intro r now hmem
  simp only [shopEvents, List.mem_cons, Event.rendered.injEq, reduceCtorEq, List.not_mem_nil,
    or_false, false_or] at hmem
  rcases hmem with ⟨rfl, -⟩ | ⟨rfl, -⟩ | ⟨rfl, -⟩ <;> exact settings_readsBack _

theorem shop_forward : Forward shopEvents := by
  show [(⟨1000, by omega⟩ : Instant), ⟨1500, by omega⟩, ⟨2000, by omega⟩].Pairwise _
  simp

/-- With room for one entry, the last render is loaded and held. -/
theorem shop_restored :
    @LoadsRecent .ofBits (@rowsAfter JsonReader.ofBits.toFloatText shopEvents) 1
        (.ok [(⟨"shop", "c2", List.replicate 32 0⟩, [configMap "settings" "v2"])])
      ∧ @LongestFront _ (FitsIn 1 100) (limited 1 (@recent JsonReader.ofBits.toFloatText shopEvents))
        (@warmed .ofBits 1 100 (@warmUp .ofBits 1 shopEvents)).inner.lru.entries := by
  have hrestores := @restart_restores .ofBits shopEvents shop_forward shop_durable 1 1 100
  exact ⟨(hrestores.1 _).mpr rfl, hrestores.2⟩

/-- The two commits of the shop are held before a restart and after it. -/
theorem shop_kept : ∃ loaded,
    @LoadsRecent .ofBits (@rowsAfter JsonReader.ofBits.toFloatText shopEvents) 2 (.ok loaded)
      ∧ @Restored .ofBits shopEvents 2 100 2 (@memoryAfter JsonReader.ofBits.toFloatText 2 100 shopEvents)
        (@warmed .ofBits 2 100 loaded) := by
  have hload := (@loads_iff .ofBits shopEvents shop_forward shop_durable 2 _).mpr rfl
  obtain ⟨loaded, hloaded, hrestored⟩ :=
    @restart_keeps .ofBits shopEvents shop_forward shop_durable 2 2 100 _ hload
  exact ⟨loaded, hloaded ▸ hload, hrestored⟩

end SynchrotronCD.Db.AppCacheRows
