import SynchrotronCD.Lib.Lru
import SynchrotronCD.Plugins.AppRenderer

/-!
# The render caches

Two caches keep rendered manifests, one below the other: `Cache` what a plugin
made of its inputs, `AppCache` what an application was rendered to. They are the
same thing over different keys, an LRU list with a cap on the number of entries and
one on the bytes of their bodies, and the bytes are counted beside the list.

Each operation holds the cache's lock to its end, so an interleaving of callers is a
sequence of operations. The bytes are those of bodies in memory, so their sum stays
far below the largest `usize`, and the saturating addition is an addition.
-/

namespace SynchrotronCD.Render

open Lib Git

structure Entry where
  manifests : List Manifest
  bytes : Nat

section

variable [FloatText]

/-- The length of the bodies' JSON texts; a body without one counts for nothing. -/
def estimateBytes (manifests : List Manifest) : Nat :=
  (manifests.map fun m => ((ManifestBody.toVec m.body.value).map List.length).getD 0).sum

end

/-- What `Cache` and `AppCache` have in common: `Inner`, the counters and the byte cap. -/
structure BoundedCache (K : Type) where
  lru : Lru K Entry
  totalBytes : Nat
  hits : UInt64
  misses : UInt64
  evictions : UInt64
  maxBytes : Nat

namespace BoundedCache

variable {K : Type} [DecidableEq K]

/-- A cache holds at least one entry, whatever it is asked for. -/
def new (maxEntries maxBytes : Nat) : BoundedCache K where
  lru := Lru.new (max maxEntries 1) (by omega)
  totalBytes := 0
  hits := 0
  misses := 0
  evictions := 0
  maxBytes := maxBytes

def get (c : BoundedCache K) (key : K) : BoundedCache K × Option (List Manifest) :=
  match c.lru.get key with
  | (lru, some entry) => ({ c with lru := lru, hits := c.hits + 1 }, some entry.manifests)
  | (lru, none) => ({ c with lru := lru, misses := c.misses + 1 }, none)

/-- Pop the least recently used entries until the bytes fit, but never the last one left. -/
def trim (c : BoundedCache K) : BoundedCache K :=
  if c.maxBytes < c.totalBytes ∧ 1 < c.lru.len then
    match _hpop : c.lru.popLru with
    | (lru, some (_, evicted)) =>
      trim { c with
        lru := lru
        totalBytes := c.totalBytes - evicted.bytes
        evictions := c.evictions + 1 }
    | (_, none) => c
  else c
termination_by c.lru.len
decreasing_by
  have hlen := c.lru.len_popLru
  rw [_hpop] at hlen
  dsimp only at hlen ⊢
  omega

/-- Take the bytes of an entry that is no longer there off the total. -/
def release (c : BoundedCache K) (gone : Option Entry) : BoundedCache K :=
  { c with totalBytes := c.totalBytes - (gone.map Entry.bytes).getD 0 }

/-- The push of `put`: what it evicts, and what it adds. -/
def pushEntry (c : BoundedCache K) (key : K) (entry : Entry) : BoundedCache K :=
  match c.lru.push key entry with
  | (lru, some (_, evicted)) =>
    { c with
      lru := lru
      totalBytes := c.totalBytes - evicted.bytes + entry.bytes
      evictions := c.evictions + 1 }
  | (lru, none) => { c with lru := lru, totalBytes := c.totalBytes + entry.bytes }

/-- Insert a render result, evicting older entries as needed to honour both bounds. -/
def put [FloatText] (c : BoundedCache K) (key : K) (manifests : List Manifest) : BoundedCache K :=
  let popped := c.lru.pop key
  ((release { c with lru := popped.1 } popped.2).pushEntry key
    ⟨manifests, estimateBytes manifests⟩).trim

/-- `lru.pop(&k)` for each of the keys, with its bytes taken off the total. -/
def popAll (c : BoundedCache K) (keys : List K) : BoundedCache K :=
  keys.foldl (fun c k => release { c with lru := (c.lru.pop k).1 } (c.lru.pop k).2) c

/-- Drop every entry whose key satisfies `p`. -/
def invalidate (c : BoundedCache K) (p : K → Bool) : BoundedCache K :=
  c.popAll (c.lru.keys.filter p)

def clear (c : BoundedCache K) : BoundedCache K := { c with lru := c.lru.clear, totalBytes := 0 }

/-- `max_entries()`. -/
def maxEntries (c : BoundedCache K) : Nat := c.lru.cap

end BoundedCache

/-! ## The plugin cache -/

/-- Inputs that uniquely identify a render output. -/
structure CacheKey where
  pluginId : String
  pluginVersion : String
  inputHash : List UInt8
deriving DecidableEq, Repr

section

variable [FloatText]

/-- What `hash_inputs` feeds to the hash: commit, parameters and extra bytes. -/
def CacheKey.hashedBytes (sourceCommit : String) (params : Value.Doc) (extra : List UInt8) :
    List UInt8 :=
  sourceCommit.toUTF8.data.toList ++ Value.jsonBytes params ++ extra

def CacheKey.hashInputs [Sha256] (sourceCommit : String) (params : Value.Doc)
    (extra : List UInt8) : List UInt8 :=
  Sha256.digest (CacheKey.hashedBytes sourceCommit params extra)

end

abbrev Cache := BoundedCache CacheKey

namespace Cache

/-- What is done with a plugin cache. -/
inductive Op where
  | get (key : CacheKey)
  | put (key : CacheKey) (manifests : List Manifest)
  | stats
  | clear

def step [FloatText] (c : Cache) : Op → Cache
  | .get key => (c.get key).1
  | .put key manifests => c.put key manifests
  | .stats => c
  | .clear => c.clear

end Cache

/-! ## The application cache -/

structure AppCache where
  inner : BoundedCache AppCacheKey
  invalidations : UInt64

namespace AppCache

def new (maxEntries maxBytes : Nat) : AppCache := ⟨.new maxEntries maxBytes, 0⟩

def get (c : AppCache) (key : AppCacheKey) : AppCache × Option (List Manifest) :=
  ({ c with inner := (c.inner.get key).1 }, (c.inner.get key).2)

/-- Insert (or replace) the entry for `key` and return what is now cached. -/
def put [FloatText] (c : AppCache) (key : AppCacheKey) (manifests : List Manifest) :
    AppCache × List Manifest :=
  ({ c with inner := c.inner.put key manifests }, manifests)

/-- Drop every entry whose key has the given application, and say how many there were. -/
def invalidateApp (c : AppCache) (appId : String) : AppCache × Nat :=
  let removed := (c.inner.lru.keys.filter fun k => k.appId = appId).length
  (⟨c.inner.invalidate fun k => k.appId = appId, c.invalidations + removed.toUInt64⟩, removed)

/-- Populate the cache, least recently used first. -/
def warm [FloatText] (c : AppCache) (entries : List (AppCacheKey × List Manifest)) : AppCache :=
  entries.foldl (fun c e => (c.put e.1 e.2).1) c

def clear (c : AppCache) : AppCache := { c with inner := c.inner.clear }

/-- What is done with an application cache. -/
inductive Op where
  | get (key : AppCacheKey)
  | put (key : AppCacheKey) (manifests : List Manifest)
  | invalidateApp (appId : String)
  | warm (entries : List (AppCacheKey × List Manifest))
  | stats
  | clear

def step [FloatText] (c : AppCache) : Op → AppCache
  | .get key => (c.get key).1
  | .put key manifests => (c.put key manifests).1
  | .invalidateApp appId => (c.invalidateApp appId).1
  | .warm entries => c.warm entries
  | .stats => c
  | .clear => c.clear

end AppCache

end SynchrotronCD.Render
