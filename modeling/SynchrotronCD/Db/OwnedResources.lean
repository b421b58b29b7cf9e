import SynchrotronCD.Kube.Prune
import SynchrotronCD.Server.AppsProof

/-!
# The recorded owned set

`replace_owned_resources` writes the resources of an application in one savepoint,
`load_owned_resources` reads them back, and the prune sweep compares what was read
with what is desired.

A resource is known by three encodings: the metadata of its manifest, a reference
in memory, and a row whose namespace column is a text. The column has one value
for no namespace and for the empty one, so a resource recorded under the empty
namespace is not loaded as it was recorded (`load_replaceOwnedResources`).
-/

namespace SynchrotronCD.Db

open Lib Kube

/-! ## Rows -/

/-- The row of a resource: no namespace is written as the empty one. -/
def ownedRow (appId : String) (r : OwnedResource) : OwnedRow where
  appId := appId
  gvk := r.gvk
  «namespace» := r.namespace.getD ""
  name := r.name
  wave := r.wave
  pruneDisabled := r.pruneDisabled

/-- The resource of a row. -/
def OwnedRow.resource (row : OwnedRow) : OwnedResource where
  gvk := row.gvk
  «namespace» := if row.namespace.isEmpty then none else some row.namespace
  name := row.name
  wave := row.wave
  pruneDisabled := row.pruneDisabled

/-- The primary key. -/
def OwnedRow.key (row : OwnedRow) : String × Gvk × String × String :=
  (row.appId, row.gvk, row.namespace, row.name)

namespace Database

def insertOwnedResource (db : Database) (row : OwnedRow) : Except Violation Database :=
  if ¬ db.applications.HasId row.appId then .error .foreignKey
  else if row.key ∈ db.ownedResources.map OwnedRow.key then .error .primaryKey
  else .ok { db with ownedResources := db.ownedResources ++ [row] }

/-- The statements of the savepoint. -/
def rewriteOwnedResources (db : Database) (appId : String) (resources : List OwnedResource) :
    Except Violation Database :=
  resources.foldlM (fun db r => db.insertOwnedResource (ownedRow appId r))
    { db with ownedResources := db.ownedResources.filter (·.appId ≠ appId) }

/-- Atomically replace the owned set of an application; the number of rows inserted. -/
def replaceOwnedResources (db : Database) (appId : String) (resources : List OwnedResource) :
    Database × Except Violation Nat :=
  match db.rewriteOwnedResources appId resources with
  | .ok db' => (db', .ok resources.length)
  | .error v => (db, .error v)

/-- Load the full owned set of an application. -/
def loadOwnedResources (db : Database) (appId : String) : List OwnedResource :=
  (db.ownedResources.filter (·.appId = appId)).map OwnedRow.resource

end Database

/-! ## Reading back -/

/-- What becomes of a resource that is recorded and loaded. -/
theorem resource_ownedRow (appId : String) (r : OwnedResource) :
    (ownedRow appId r).resource
      = { r with «namespace» := if r.namespace = some "" then none else r.namespace } := by
  obtain ⟨gvk, ns, name, wave, flag⟩ := r
  unfold ownedRow OwnedRow.resource
  cases ns with
  | none => rfl
  | some ns =>
      simp only [Option.getD_some, String.isEmpty_iff, Option.some.injEq]

theorem resource_ownedRow_eq_self {appId : String} {r : OwnedResource} :
    (ownedRow appId r).resource = r ↔ r.namespace ≠ some "" := by
  rw [resource_ownedRow]
  refine ⟨fun h hns => ?_, fun h => ?_⟩
  · rw [if_pos hns] at h
    exact absurd (congrArg OwnedResource.namespace h) (by simp [hns])
  · rw [if_neg h]

/-- An insert that goes through appends a row. -/
theorem insertOwnedResource_ok {db db' : Database} {row : OwnedRow}
    (h : db.insertOwnedResource row = .ok db') :
    db' = { db with ownedResources := db.ownedResources ++ [row] } := by
  unfold Database.insertOwnedResource at h
  split at h
  · simp at h
  · split at h
    · simp at h
    · exact (Except.ok.inj h).symm

theorem insertAll_ok {appId : String} {resources : List OwnedResource} {db db' : Database}
    (h : resources.foldlM (fun db r => db.insertOwnedResource (ownedRow appId r)) db = .ok db') :
    db'.ownedResources = db.ownedResources ++ resources.map (ownedRow appId) := by
  induction resources generalizing db with
  | nil =>
      obtain rfl := Except.ok.inj h
      exact (List.append_nil _).symm
  | cons r rest ih =>
      rw [List.foldlM_cons] at h
      obtain ⟨db₁, hins, hrest⟩ := bind_ok h
      rw [ih hrest, insertOwnedResource_ok hins, List.append_assoc]
      rfl

/-- **Loading after replacing.** Each resource is loaded as its row says. -/
theorem load_replaceOwnedResources {db db' : Database} {appId : String}
    {recorded : List OwnedResource} {n : Nat}
    (h : db.replaceOwnedResources appId recorded = (db', .ok n)) :
    db'.loadOwnedResources appId = recorded.map fun r => (ownedRow appId r).resource := by
  unfold Database.replaceOwnedResources at h
  split at h
  · rename_i db₁ hrw
    obtain ⟨rfl, -⟩ := Prod.mk.inj h
    unfold Database.loadOwnedResources
    have hold : (db.ownedResources.filter fun row => row.appId ≠ appId).filter
        (fun row => row.appId = appId) = [] := by
      rw [List.filter_filter, List.filter_eq_nil_iff]
      intro row _
      simp
    have hnew : (recorded.map (ownedRow appId)).filter (fun row => row.appId = appId)
        = recorded.map (ownedRow appId) := by
      rw [List.filter_eq_self]
      intro row hrow
      obtain ⟨r, -, rfl⟩ := List.mem_map.mp hrow
      exact decide_eq_true rfl
    rw [insertAll_ok hrw, List.filter_append, hold, hnew, List.nil_append, List.map_map]
    rfl
  · simp at h

/-- **The set is loaded as recorded**, up to its order, exactly if no resource was recorded under
the empty namespace. -/
theorem load_perm_iff {db db' : Database} {appId : String} {recorded : List OwnedResource} {n : Nat}
    (h : db.replaceOwnedResources appId recorded = (db', .ok n)) :
    (db'.loadOwnedResources appId).Perm recorded ↔ ∀ r ∈ recorded, r.namespace ≠ some "" := by
  rw [load_replaceOwnedResources h]
  refine ⟨?_, ?_⟩
  · intro hperm r hr hns
    -- nothing that is loaded is under the empty namespace
    obtain ⟨r', -, hr'⟩ := List.mem_map.mp (hperm.mem_iff.mpr hr)
    rw [← hr', resource_ownedRow] at hns
    dsimp only at hns
    split at hns
    · simp at hns
    · rename_i hne
      exact hne hns
  · intro hall
    rw [List.map_congr_left fun r hr => resource_ownedRow_eq_self.mpr (hall r hr), List.map_id']

/-! ## What is pruned -/

/-- The resource and the manifest are one object: to the cluster, the empty namespace is none. -/
structure SameResource (r : OwnedResource) (m : Manifest) : Prop where
  gvk : r.gvk = m.gvk
  «namespace» : r.namespace.getD "" = m.namespace.getD ""
  name : r.name = m.name

/--
**Pruning spares what is desired.** What was loaded is what was recorded, and nothing in the
prune set is the object of a manifest that is desired later.
-/
structure PruneSpares (recorded loaded : List OwnedResource) (later : List Manifest) : Prop where
  reloaded : loaded.Perm recorded
  spared : ∀ r ∈ computePruneSet loaded later, ∀ m ∈ later, ¬ SameResource r m

/--
**When pruning spares what is desired.**

Once the owned set of an application has been recorded and loaded, the prune sweep spares
every later desired set, and the set is loaded as recorded, if and only if nothing was
recorded under the empty namespace, and the later set names nothing under the empty namespace
only that was recorded, open to pruning, under none.
-/
theorem pruneSpares_iff {db db' : Database} {appId : String} {recorded : List OwnedResource}
    {n : Nat} (later : List Manifest)
    (h : db.replaceOwnedResources appId recorded = (db', .ok n)) :
    PruneSpares recorded (db'.loadOwnedResources appId) later
      ↔ (∀ r ∈ recorded, r.namespace ≠ some "")
        ∧ ∀ r ∈ recorded, r.pruneDisabled = false → r.namespace = none →
          (⟨r.gvk, some "", r.name⟩ : ResourceRef) ∈ later.map ResourceRef.of →
          r.ref ∈ later.map ResourceRef.of := by
  refine ⟨?_, ?_⟩
  · intro hspares
    have hload := (load_perm_iff h).mp hspares.reloaded
    refine ⟨hload, fun r hr hflag hns hempty => ?_⟩
    by_contra hnot
    obtain ⟨m, hm, href⟩ := List.mem_map.mp hempty
    obtain ⟨hgvk, hmns, hname⟩ := ResourceRef.mk.inj href
    refine hspares.spared r ?_ m hm ⟨hgvk.symm, by rw [hns, hmns]; rfl, hname.symm⟩
    exact mem_computePruneSet.mpr ⟨hspares.reloaded.mem_iff.mpr hr, hflag, hnot⟩
  · intro hcond
    obtain ⟨hload, htwin⟩ := hcond
    have hperm := (load_perm_iff h).mpr hload
    refine ⟨hperm, fun r hr m hm hsame => ?_⟩
    obtain ⟨hmem, hflag, hnot⟩ := mem_computePruneSet.mp hr
    have hrec := hperm.mem_iff.mp hmem
    have href : r.namespace ≠ m.namespace := by
      intro hns
      refine hnot (List.mem_map.mpr ⟨m, hm, ?_⟩)
      unfold ResourceRef.of OwnedResource.ref
      rw [hsame.gvk, hns, hsame.name]
    -- both have no namespace, and differ in how they say so
    cases hrns : r.namespace with
    | none =>
        cases hmns : m.namespace with
        | none => exact href (hrns.trans hmns.symm)
        | some ns =>
            have hns : "" = ns := by simpa [hrns, hmns] using hsame.namespace
            refine hnot (htwin r hrec hflag hrns (List.mem_map.mpr ⟨m, hm, ?_⟩))
            unfold ResourceRef.of
            rw [hmns, ← hns, hsame.gvk, hsame.name]
    | some ns =>
        have hne : ns ≠ "" := fun he => hload r hrec (by rw [hrns, he])
        cases hmns : m.namespace with
        | none => exact hne (by simpa [hrns, hmns] using hsame.namespace)
        | some ns' =>
            have hns : ns = ns' := by simpa [hrns, hmns] using hsame.namespace
            exact href (by rw [hrns, hmns, hns])

/-- A cluster role whose manifest names the empty namespace. -/
def emptyNamespaceRole : Manifest :=
  let v : Value := .mapping [(.string "apiVersion", .string "rbac.authorization.k8s.io/v1"),
    (.string "kind", .string "ClusterRole"),
    (.string "metadata", .mapping [(.string "name", .string "reader"),
      (.string "namespace", .string "")])]
  let bytes := (@ManifestBody.toVec .ofBits v).getD []
  ⟨⟨"rbac.authorization.k8s.io", "v1", "ClusterRole"⟩, "reader", some "",
    ⟨bytes, fnv1a64 bytes, v, rfl⟩⟩

/-- The role as it is recorded. -/
def recordedRole : OwnedResource :=
  ⟨⟨"rbac.authorization.k8s.io", "v1", "ClusterRole"⟩, some "", "reader", 0, false⟩

/-- A config map as it is recorded. -/
def recordedSettings : OwnedResource := ⟨⟨"", "v1", "ConfigMap"⟩, some "app", "settings", 0, false⟩

theorem shopDb_spares :
    PruneSpares [recordedSettings]
      ((shopDb.replaceOwnedResources "1" [recordedSettings]).1.loadOwnedResources "1")
      [emptyNamespaceRole]
      ↔ (∀ r ∈ [recordedSettings], r.namespace ≠ some "")
        ∧ ∀ r ∈ [recordedSettings], r.pruneDisabled = false → r.namespace = none →
          (⟨r.gvk, some "", r.name⟩ : ResourceRef) ∈ [emptyNamespaceRole].map ResourceRef.of →
          r.ref ∈ [emptyNamespaceRole].map ResourceRef.of :=
  pruneSpares_iff [emptyNamespaceRole]
    (show shopDb.replaceOwnedResources "1" [recordedSettings] = (_, .ok 1) from rfl)

/-- **A wanted cluster role is pruned.** -/
theorem wantedRole_pruned : ¬ ∀ (db db' : Database) (appId : String)
    (recorded : List OwnedResource) (n : Nat) (later : List Manifest),
    db.replaceOwnedResources appId recorded = (db', .ok n) →
    PruneSpares recorded (db'.loadOwnedResources appId) later := by
  intro h
  have hspares := h shopDb _ "1" [recordedRole] 1 [emptyNamespaceRole] rfl
  refine hspares.spared { recordedRole with «namespace» := none } ?_ emptyNamespaceRole (by simp)
    ⟨rfl, rfl, rfl⟩
  rw [mem_computePruneSet]
  decide

end SynchrotronCD.Db
