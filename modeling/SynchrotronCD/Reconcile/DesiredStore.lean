import SynchrotronCD.Reconcile.Reconcile

/-!
# The desired-state store

The latest rendered manifests of each app and the revision they came from. Every
operation is one locked section, hence one atomic step; the reconciler holds no
lock from one read to the next.
-/

namespace SynchrotronCD

open Lib

/-- The rendered manifests and the git revision they were produced from. -/
structure DesiredEntry where
  manifests : List Manifest
  revision : Option String

abbrev DesiredStore := HashMap AppName DesiredEntry

namespace DesiredStore

/-- Replace the slot for `app`. -/
def putWithRevision (s : DesiredStore) (app : AppName) (manifests : List Manifest)
    (revision : Option String) : DesiredStore :=
  s.insert app ⟨manifests, revision⟩

/-- Drop the slot for `app`. -/
def forget (s : DesiredStore) (app : AppName) : DesiredStore := s.erase app

def get (s : DesiredStore) (app : AppName) : Except SourceError (List Manifest) :=
  match s.lookup app with
  | some e => .ok e.manifests
  | none => .error .notFound

def getRevision (s : DesiredStore) (app : AppName) : Option String :=
  (s.lookup app).bind DesiredEntry.revision

end DesiredStore

/-- A write by the render pipeline. -/
inductive DesiredWrite where
  | put (app : AppName) (manifests : List Manifest) (revision : Option String)
  | forget (app : AppName)

def DesiredStore.write (s : DesiredStore) : DesiredWrite → DesiredStore
  | .put app manifests revision => s.putWithRevision app manifests revision
  | .forget app => s.forget app

/-- Where the writes of other tasks fall among the reads of one pass, and what the
live store answers. Writes before the first read are part of the store it finds. -/
structure Interleaving where
  /-- Between the first read of the manifests and the read of the revision. -/
  beforeRevision : List DesiredWrite
  /-- Between the read of the revision and the second read of the manifests. -/
  beforeRefetch : List DesiredWrite
  live : Except SourceError (List Manifest)
  liveAgain : Except SourceError (List Manifest)

/-- What a pass reads. -/
def Interleaving.reads (i : Interleaving) (s : DesiredStore) (app : AppName) : PassReads :=
  let s₁ := i.beforeRevision.foldl DesiredStore.write s
  let s₂ := i.beforeRefetch.foldl DesiredStore.write s₁
  { desired := s.get app
    live := i.live
    revision := s₁.getRevision app
    desiredAgain := s₂.get app
    liveAgain := i.liveAgain }

end SynchrotronCD
