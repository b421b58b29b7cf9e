import SynchrotronCD.Lib.Paths
import SynchrotronCD.Plugins.Mapping

/-!
# The Kustomize plugin

The directory that is built, and the policy on remote bases, which is enforced on the
entries of the kustomization in that directory. What `kustomize` takes for remote is an
argument: the plugin has a notion of its own (`looksRemote`).

`policy_holds_iff`: a kustomization that passes the check has no entry anywhere that the
policy does not permit, exactly if there is none in what the check does not look at.
-/

namespace SynchrotronCD.Kustomize

open Lib

/-! ## The plugin -/

/-- What a file says as YAML, or why it is none. -/
abbrev Files := String → FileAt (Except String Value)

/-- Parameters the application passes to the plugin. -/
structure RenderParams where
  /-- Subdirectory within the source path; its root if there is none. -/
  path : Option String
  allowRemoteBases : Bool
  /-- What a remote entry can begin with; `*` allows anything. -/
  remoteBaseAllowlist : List String
  enableHelm : Bool
deriving DecidableEq, Repr

inductive KustomizeError where
  | missing (path : String)
  | readKustomization (path source : String)
  | parseKustomization (path source : String)
  | remoteBaseDisabled (entry : String)
  | remoteBaseNotAllowlisted (entry : String) (allowlist : List String)
deriving DecidableEq, Repr

/-- The kustomization of a directory, under the first of its three names that is there. -/
def kustomizationFile (files : Files) (dir : String) : Option String :=
  (["kustomization.yaml", "kustomization.yml", "Kustomization"].map (joinPath dir)).find? fun p =>
    (files p).isFile

def resolveKustomizationDir (files : Files) (sourcePath : String) (params : RenderParams) :
    Except KustomizeError String :=
  let dir := match params.path with
    | some rel => joinPath sourcePath rel
    | none => sourcePath
  match kustomizationFile files dir with
  | none => .error (.missing dir)
  | some _ => .ok dir

/-- Scheme URLs, explicit go-getter forms, and shorthands of hosts. -/
def looksRemote (entry : String) : Bool :=
  ["http://", "https://", "git@", "git::", "ssh://", "github.com/", "gitlab.com/",
      "bitbucket.org/"].any fun p => decide (p.toList <+: entry.toList.map Char.toLower)

def prefixAllowed (entry : String) (allowlist : List String) : Bool :=
  allowlist.any fun p => decide (p = "*" ∨ p.toList <+: entry.toList)

/-- The entries of a kustomization that are texts. -/
def entries (doc : Value) : List String :=
  ["resources", "bases", "components"].flatMap fun field =>
    (((doc.get field).bind Value.asSequence).getD []).filterMap Value.asStr

def checkEntry (params : RenderParams) (entry : String) : Except KustomizeError Unit :=
  if !looksRemote entry then .ok ()
  else if !params.allowRemoteBases then .error (.remoteBaseDisabled entry)
  else if !prefixAllowed entry params.remoteBaseAllowlist then
    .error (.remoteBaseNotAllowlisted entry params.remoteBaseAllowlist)
  else .ok ()

def checkEntries (params : RenderParams) : List String → Except KustomizeError Unit
  | [] => .ok ()
  | entry :: rest =>
    match checkEntry params entry with
    | .ok () => checkEntries params rest
    | .error e => .error e

/-- Enforce the policy on remote bases against the kustomization of a directory. -/
def checkRemoteBases (files : Files) (kustomizationDir : String) (params : RenderParams) :
    Except KustomizeError Unit :=
  match kustomizationFile files kustomizationDir with
  | none => .error (.missing kustomizationDir)
  | some kf =>
    match files kf with
    | .absent => .error (.readKustomization kf "No such file or directory")
    | .unreadable source => .error (.readKustomization kf source)
    | .file (.error source) => .error (.parseKustomization kf source)
    | .file (.ok doc) => checkEntries params (entries doc)

/-! ## The tree of kustomizations -/

/-- The entries of the kustomization in a directory, if there is one that can be read. -/
def entriesAt (files : Files) (dir : String) : List String :=
  match (kustomizationFile files dir).map files with
  | some (.file (.ok doc)) => entries doc
  | _ => []

section

variable (remote : String → Prop) (files : Files) (dir : String) (params : RenderParams)

/-- The directories that local entries lead to. -/
inductive Reachable : String → Prop
  | root : Reachable dir
  | entry {d entry : String} (h : Reachable d) (hmem : entry ∈ entriesAt files d)
      (hlocal : ¬ remote entry) : Reachable (joinPath d entry)

/-- The policy: with `allow_remote_bases`, and by a prefix or the explicit wildcard. -/
def Permitted (entry : String) : Prop :=
  params.allowRemoteBases = true ∧ ("*" ∈ params.remoteBaseAllowlist
    ∨ ∃ p ∈ params.remoteBaseAllowlist, p ≠ "" ∧ p.toList <+: entry.toList)

/-- Every remote entry anywhere is permitted. -/
def PolicyHolds : Prop :=
  ∀ d, Reachable remote files dir d → ∀ entry ∈ entriesAt files d, remote entry →
    Permitted params entry

/-- What the check does not look at does not break the policy. -/
structure NothingOverlooked : Prop where
  /-- Kustomizations further down. -/
  nested : ∀ d, Reachable remote files dir d → d ≠ dir →
    ∀ entry ∈ entriesAt files d, remote entry → Permitted params entry
  /-- Entries that are remote and do not look so. -/
  unrecognised : ∀ entry ∈ entriesAt files dir, remote entry → looksRemote entry = false →
    Permitted params entry
  /-- Entries that begin with the empty prefix, as all do, and with no other. -/
  empty : "" ∈ params.remoteBaseAllowlist → ∀ entry ∈ entriesAt files dir, remote entry →
    looksRemote entry = true → "*" ∈ params.remoteBaseAllowlist
      ∨ ∃ p ∈ params.remoteBaseAllowlist, p ≠ "" ∧ p.toList <+: entry.toList

end

theorem checkEntry_ok {params : RenderParams} {entry : String} (hlooks : looksRemote entry = true) :
    checkEntry params entry = .ok () ↔ params.allowRemoteBases = true
      ∧ prefixAllowed entry params.remoteBaseAllowlist = true := by
  unfold checkEntry
  cases params.allowRemoteBases with
  | false => simp [hlooks]
  | true => cases prefixAllowed entry params.remoteBaseAllowlist <;> simp [hlooks]

theorem checkEntries_ok {params : RenderParams} {es : List String} :
    checkEntries params es = .ok () ↔ ∀ entry ∈ es, checkEntry params entry = .ok () := by
  induction es with
  | nil => simp [checkEntries]
  | cons e es ih =>
      rw [checkEntries, List.forall_mem_cons, ← ih]
      cases checkEntry params e with
      | ok => simp
      | error err => simp

theorem checkRemoteBases_ok {files : Files} {dir : String} {params : RenderParams}
    (h : checkRemoteBases files dir params = .ok ()) :
    ∀ entry ∈ entriesAt files dir, checkEntry params entry = .ok () := by
  unfold checkRemoteBases at h
  unfold entriesAt
  split at h
  · exact nomatch h
  · rename_i kf hkf
    rw [hkf, Option.map_some]
    split at h
    · exact nomatch h
    · exact nomatch h
    · exact nomatch h
    · rename_i doc hdoc
      rw [hdoc]
      exact checkEntries_ok.mp h

/-- An entry that passes is permitted, unless by the empty prefix alone. -/
theorem permitted_of_checkEntry {params : RenderParams} {entry : String}
    (hlooks : looksRemote entry = true) (h : checkEntry params entry = .ok ())
    (hempty : "" ∈ params.remoteBaseAllowlist → "*" ∈ params.remoteBaseAllowlist
      ∨ ∃ p ∈ params.remoteBaseAllowlist, p ≠ "" ∧ p.toList <+: entry.toList) :
    Permitted params entry := by
  obtain ⟨hallow, hprefix⟩ := (checkEntry_ok hlooks).mp h
  refine ⟨hallow, ?_⟩
  obtain ⟨p, hp, hmatch⟩ := List.any_eq_true.mp hprefix
  rcases of_decide_eq_true hmatch with rfl | hpre
  · exact Or.inl hp
  · by_cases hne : p = ""
    · exact hempty (hne ▸ hp)
    · exact Or.inr ⟨p, hp, hne, hpre⟩

/-- **After a check, the policy holds exactly if it holds of what the check does not look at.** -/
theorem policy_holds_iff (remote : String → Prop) (files : Files) (dir : String)
    (params : RenderParams) (h : checkRemoteBases files dir params = .ok ()) :
    PolicyHolds remote files dir params ↔ NothingOverlooked remote files dir params := by
  constructor
  · intro hpolicy
    exact ⟨fun d hd _ => hpolicy d hd, fun entry he hr _ => hpolicy dir .root entry he hr,
      fun _ entry he hr _ => (hpolicy dir .root entry he hr).2⟩
  · intro hover d hd entry he hr
    by_cases hdir : d = dir
    · subst hdir
      cases hlooks : looksRemote entry with
      | false => exact hover.unrecognised entry he hr hlooks
      | true =>
          exact permitted_of_checkEntry hlooks (checkRemoteBases_ok h entry he) fun hempty =>
            hover.empty hempty entry he hr hlooks
    · exact hover.nested d hd hdir entry he hr

/-! ## An overlay -/

/-- A kustomization with these resources. -/
def resources (names : List String) : FileAt (Except String Value) :=
  .file (.ok (.mapping [(.string "resources", .sequence (names.map .string))]))

/-- An overlay without remote entries over a base that has one. -/
def overlayFiles : Files := fun path =>
  if path = "/app/prod/kustomization.yaml" then resources ["../base", "ingress.yaml"]
  else if path = "/app/prod/../base/kustomization.yaml" then
    resources ["https://example.com/manifests"]
  else .absent

/-- No remote bases. -/
def strict : RenderParams := ⟨none, false, [], false⟩

theorem overlay_checked : checkRemoteBases overlayFiles "/app/prod" strict = .ok () := by rfl

theorem overlay_policy_iff :
    PolicyHolds (fun entry => looksRemote entry = true) overlayFiles "/app/prod" strict
      ↔ NothingOverlooked (fun entry => looksRemote entry = true) overlayFiles "/app/prod" strict :=
  policy_holds_iff _ overlayFiles "/app/prod" strict overlay_checked

theorem nested_remote_base_passes : checkRemoteBases overlayFiles "/app/prod" strict = .ok ()
    ∧ ¬ PolicyHolds (fun entry => looksRemote entry = true) overlayFiles "/app/prod" strict := by
  refine ⟨overlay_checked, fun h => ?_⟩
  have hbase : Reachable (fun entry => looksRemote entry = true) overlayFiles "/app/prod"
      "/app/prod/../base" :=
    @Reachable.entry _ _ _ "/app/prod" "../base" .root (by decide) (by decide)
  have hpermitted := h _ hbase "https://example.com/manifests" (by decide) (by decide)
  exact Bool.false_ne_true hpermitted.1

end SynchrotronCD.Kustomize
