import SynchrotronCD.Diff.Compare

/-!
# Field ownership

`metadata.managedFields` lists, manager by manager, the fields each has written
(`fieldsV1`). The ownership filter splits a diff by it: drift, and what is
another manager's business.

Several managers may own a field. The filter asks for one owner only, the first
in the list, so that a field of ours which another manager owns as well is ours
or theirs by the order of the entries.
-/

namespace SynchrotronCD

/-! ## `managedFields` -/

/-- The entries of `metadata.managedFields`. -/
def managedFieldEntries (body : Value) : List Value :=
  (((body.get "metadata").bind fun m => m.get "managedFields").bind Value.asSequence).getD []

/-- The manager and the `fieldsV1` of an entry that has both. -/
def managerFields (entry : Value) : Option (String × Value) :=
  match (entry.get "manager").bind Value.asStr, entry.get "fieldsV1" with
  | some manager, some fieldsV1 => some (manager, fieldsV1)
  | _, _ => none

/-- The `(manager, fieldsV1)` pairs; entries missing either field are skipped. -/
def iterManagedFields (body : Value) : List (String × Value) :=
  (managedFieldEntries body).filterMap managerFields

/-- The `fieldsV1` key of a segment. -/
def candidateKey : PathSegment → String
  | .field name => "f:" ++ name
  | .index i => "i:" ++ toString i
  | .keyed keys =>
    "k:\x7b" ++ ",".intercalate (keys.map fun k => "\"" ++ k.1 ++ "\":\"" ++ k.2 ++ "\"") ++ "\x7d"

/-- Descent through a `fieldsV1` tree; an empty child stands for its whole subtree. -/
def fieldsV1Owns : List PathSegment → Value → Bool
  | [], node => node.asMapping.isSome
  | head :: tail, node =>
    match node.asMapping with
    | none => false
    | some map =>
      match entry map (.string (candidateKey head)) with
      | none => false
      | some child =>
        ((child.asMapping.map List.isEmpty).getD true) || fieldsV1Owns tail child

/-- The first manager that owns the path. -/
def ownerOf (path : ValuePath) (body : Value) : Option String :=
  ((iterManagedFields body).find? fun e => fieldsV1Owns path e.2).map Prod.fst

/-- Some manager in `allowed` owns the path. -/
def pathOwnedByAny (path : ValuePath) (body : Value) (allowed : List String) : Bool :=
  (iterManagedFields body).any fun e => allowed.any (· == e.1) && fieldsV1Owns path e.2

/-! ## The filter -/

/-- Field-ownership filtering by fieldManager. -/
structure FieldOwnershipFilter where
  ourManager : String

structure FilteredDiff where
  /-- Changes that drive sync decisions. -/
  drift : Diff
  /-- Changes attributed to other managers. -/
  informational : Diff

namespace FieldOwnershipFilter

/-- One change of the loop in `apply`. -/
def classify (me : FieldOwnershipFilter) (live : Manifest) (acc : FilteredDiff)
    (change : Change) : FilteredDiff :=
  match ownerOf change.path live.body.value with
  | some m =>
    if m = me.ourManager then { acc with drift := ⟨acc.drift.changes ++ [change]⟩ }
    else { acc with informational := ⟨acc.informational.changes ++ [change]⟩ }
  | none => { acc with drift := ⟨acc.drift.changes ++ [change]⟩ }

/-- Partition a diff into drift (we own it or nobody does) and informational. -/
def apply (me : FieldOwnershipFilter) (diff : Diff) (live : Manifest) : FilteredDiff :=
  diff.changes.foldl (me.classify live) ⟨⟨[]⟩, ⟨[]⟩⟩

/-- The first owner is us, or there is none. -/
def isDrift (me : FieldOwnershipFilter) (live : Manifest) (c : Change) : Bool :=
  match ownerOf c.path live.body.value with
  | some m => m = me.ourManager
  | none => true

theorem classify_eq (me : FieldOwnershipFilter) (live : Manifest) (acc : FilteredDiff)
    (c : Change) : me.classify live acc c =
      if me.isDrift live c = true then { acc with drift := ⟨acc.drift.changes ++ [c]⟩ }
      else { acc with informational := ⟨acc.informational.changes ++ [c]⟩ } := by
  unfold classify isDrift
  cases ownerOf c.path live.body.value with
  | none => simp
  | some m => by_cases hm : m = me.ourManager <;> simp [hm]

theorem foldl_classify (me : FieldOwnershipFilter) (live : Manifest) (cs : List Change) :
    ∀ acc : FilteredDiff, cs.foldl (me.classify live) acc =
      ⟨⟨acc.drift.changes ++ cs.filter (me.isDrift live)⟩,
        ⟨acc.informational.changes ++ cs.filter fun c => !me.isDrift live c⟩⟩ := by
  induction cs with
  | nil => intro acc; simp
  | cons c cs ih =>
      intro acc
      rw [List.foldl_cons, ih, classify_eq]
      cases hc : me.isDrift live c <;> simp [hc]

theorem apply_eq_filter (me : FieldOwnershipFilter) (diff : Diff) (live : Manifest) :
    me.apply diff live = ⟨⟨diff.changes.filter (me.isDrift live)⟩,
      ⟨diff.changes.filter fun c => !me.isDrift live c⟩⟩ := by
  unfold apply
  rw [foldl_classify]
  simp

end FieldOwnershipFilter

/-! ## Owners -/

/-- The managers that own a path. -/
def owners (path : ValuePath) (body : Value) : List String :=
  ((iterManagedFields body).filter fun e => fieldsV1Owns path e.2).map Prod.fst

theorem ownerOf_eq_head (path : ValuePath) (body : Value) :
    ownerOf path body = (owners path body).head? := by
  unfold ownerOf owners
  rw [List.head?_map, List.head?_filter]

/-- Somebody owns the path, and we do not. -/
def Foreign (ourManager : String) (body : Value) (c : Change) : Prop :=
  owners c.path body ≠ [] ∧ ourManager ∉ owners c.path body

instance (ourManager : String) (body : Value) (c : Change) :
    Decidable (Foreign ourManager body c) := by
  unfold Foreign
  infer_instance

/-- We own the path, and somebody else does. -/
def Shared (ourManager : String) (body : Value) (c : Change) : Prop :=
  ourManager ∈ owners c.path body ∧ ∃ m ∈ owners c.path body, m ≠ ourManager

/-- The body with these entries in its `managedFields`, if it has any. -/
def withManagedFields (entries : List Value) (body : Value) : Value :=
  body.modifyField "metadata" fun m =>
    m.modifyField "managedFields" fun f => f.modifyElements fun _ => entries

theorem managedFieldEntries_with {entries : List Value} {body : Value}
    (h : entries.Perm (managedFieldEntries body)) :
    managedFieldEntries (withManagedFields entries body) = entries := by
  unfold managedFieldEntries at h
  unfold managedFieldEntries withManagedFields
  rw [Value.get_modifyField]
  cases hm : body.get "metadata" with
  | none => rw [hm] at h; exact h.symm.nil_eq
  | some m =>
      rw [hm] at h
      simp only [Option.map_some, Option.bind_some] at h ⊢
      rw [Value.get_modifyField]
      cases hf : m.get "managedFields" with
      | none => rw [hf] at h; exact h.symm.nil_eq
      | some f =>
          rw [hf] at h
          simp only [Option.map_some, Option.bind_some] at h ⊢
          rw [Value.asSequence_modifyElements]
          cases hs : f.asSequence with
          | none => rw [hs] at h; exact h.symm.nil_eq
          | some xs => rfl

/-- Reordering the entries reorders the owners. -/
theorem owners_perm {entries : List Value} {body : Value} (path : ValuePath)
    (h : entries.Perm (managedFieldEntries body)) :
    (owners path (withManagedFields entries body)).Perm (owners path body) := by
  unfold owners iterManagedFields
  rw [managedFieldEntries_with h]
  exact ((h.filterMap _).filter _).map _

/-- Any owner can come first. -/
theorem exists_order {path : ValuePath} {body : Value} {m : String} (h : m ∈ owners path body) :
    ∃ entries, entries.Perm (managedFieldEntries body) ∧
      ownerOf path (withManagedFields entries body) = some m := by
  obtain ⟨⟨m', fields⟩, he, rfl⟩ := List.mem_map.mp h
  obtain ⟨he, howns⟩ := List.mem_filter.mp he
  obtain ⟨e, hmem, hpair⟩ := List.mem_filterMap.mp he
  obtain ⟨pre, post, hsplit⟩ := List.append_of_mem hmem
  have hperm : (e :: (pre ++ post)).Perm (managedFieldEntries body) := by
    rw [hsplit]
    exact List.perm_middle.symm
  refine ⟨e :: (pre ++ post), hperm, ?_⟩
  unfold ownerOf iterManagedFields
  rw [managedFieldEntries_with hperm, List.filterMap_cons_some hpair, List.find?_cons, howns]
  rfl

/-! ## The partition -/

/-- The filter splits by foreign ownership in `body`, keeping the order of the changes. -/
def SplitsByOwnership (me : FieldOwnershipFilter) (diff : Diff) (body : Value)
    (split : FilteredDiff) : Prop :=
  split.informational.changes = diff.changes.filter (Foreign me.ourManager body) ∧
  split.drift.changes = diff.changes.filter fun c => ¬ Foreign me.ourManager body c

/--
**The filter splits by foreign ownership, whatever the order of the entries,
exactly when no changed field is owned both by us and by somebody else.**
-/
theorem splits_iff_none_shared (me : FieldOwnershipFilter) (diff : Diff) (live : Manifest) :
    (∀ (entries : List Value) (live' : Manifest),
      entries.Perm (managedFieldEntries live.body.value) →
      live'.body.value = withManagedFields entries live.body.value →
      SplitsByOwnership me diff live.body.value (me.apply diff live')) ↔
    ∀ c ∈ diff.changes, ¬ Shared me.ourManager live.body.value c := by
  refine ⟨?_, ?_⟩
  · rintro h c hc ⟨hours, m, hm, hne⟩
    -- with the other owner first the change is informational, though we own it
    obtain ⟨entries, hperm, howner⟩ := exists_order hm
    let live' : Manifest :=
      { live with body := { live.body with value := withManagedFields entries live.body.value } }
    have hsplit := (h entries live' hperm rfl).1
    rw [FieldOwnershipFilter.apply_eq_filter] at hsplit
    have hnot : me.isDrift live' c = false := by
      unfold FieldOwnershipFilter.isDrift
      rw [howner]
      simpa using hne
    have hinf : c ∈ diff.changes.filter fun c => !me.isDrift live' c :=
      List.mem_filter.mpr ⟨hc, by rw [hnot]; rfl⟩
    have hforeign : Foreign me.ourManager live.body.value c := by
      rw [show diff.changes.filter (fun c => !me.isDrift live' c) = _ from hsplit] at hinf
      simpa using (List.mem_filter.mp hinf).2
    exact hforeign.2 hours
  · intro h entries live' hperm hbody
    have key : ∀ c ∈ diff.changes,
        me.isDrift live' c = !decide (Foreign me.ourManager live.body.value c) := by
      intro c hc
      have hp := owners_perm c.path hperm
      unfold FieldOwnershipFilter.isDrift
      rw [hbody, ownerOf_eq_head]
      cases ho : owners c.path (withManagedFields entries live.body.value) with
      | nil =>
          have hnil : owners c.path live.body.value = [] := by
            rw [ho] at hp
            exact hp.nil_eq.symm
          simp [Foreign, hnil]
      | cons m rest =>
          have hm : m ∈ owners c.path live.body.value := hp.mem_iff.mp (by rw [ho]; simp)
          have hne : owners c.path live.body.value ≠ [] := List.ne_nil_of_mem hm
          by_cases hours : m = me.ourManager
          · subst hours
            simp [Foreign, hm]
          · -- not shared, so that we are not among the owners
            have hnot : me.ourManager ∉ owners c.path live.body.value :=
              fun hin => h c hc ⟨hin, m, hm, hours⟩
            simp [Foreign, hne, hnot, hours]
    rw [FieldOwnershipFilter.apply_eq_filter]
    refine ⟨?_, ?_⟩
    · exact List.filter_congr fun c hc => by rw [key c hc, Bool.not_not]
    · exact List.filter_congr fun c hc => by rw [key c hc]; simp

/-! ## A field of two owners -/

/-- An entry of a manager that owns `spec.replicas`. -/
def replicasEntry (manager : String) : Value :=
  .mapping [(.string "manager", .string manager),
    (.string "fieldsV1", .mapping [(.string "f:spec", .mapping [(.string "f:replicas", .mapping [])])])]

/-- A Deployment whose replicas two managers own. -/
def coOwned (first second : String) : Manifest :=
  ⟨⟨"apps", "v1", "Deployment"⟩, "web", none,
    (@ManifestBody.fromValue .ofBits (.mapping [(.string "metadata", .mapping
      [(.string "managedFields", .sequence [replicasEntry first, replicasEntry second])])])).get rfl⟩

/-- Somebody scaled the Deployment. -/
def scaled : Diff :=
  ⟨[.modified [.field "spec", .field "replicas"] (.number (.posInt 3)) (.number (.posInt 5))]⟩

/-- With the other owner first, a change of a field we own is informational; with us first it
is drift. -/
theorem first_owner_decides :
    let me : FieldOwnershipFilter := ⟨"synchrotron-cd"⟩
    let live := coOwned "kubectl" "synchrotron-cd"
    ¬ SplitsByOwnership me scaled live.body.value (me.apply scaled live) ∧
      (me.apply scaled (coOwned "synchrotron-cd" "kubectl")).informational.changes.length = 0 := by
  refine ⟨?_, by decide⟩
  intro hboth
  obtain ⟨hinf, -⟩ := hboth
  exact absurd (congrArg List.length hinf) (by decide)

end SynchrotronCD
