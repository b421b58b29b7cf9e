import SynchrotronCD.Lib.Sorting
import SynchrotronCD.Plugins.TextKeys
import SynchrotronCD.Reconcile.PlanProof

/-!
# The raw source

A directory is walked, every `.yaml` and `.yml` file below it is read, and the
documents of the files are the manifests, in the order of the paths.

A file that cannot be read ends the load, and so does a document that is no
manifest. A directory that cannot be opened, and an entry that the listing gives
an error for, are passed over: whatever stands there is missing from a load that
succeeds (`allOrNothing_iff`), and the planner deletes it (`unlisted_deleted`).
-/

namespace SynchrotronCD.Raw

open Lib
open List (Forall₂)

/-- A name in a directory, in bytes. -/
abbrev OsString := List UInt8

/-- The names from the source directory down. -/
abbrev Path := List OsString

inductive IoErrorKind where
  | notFound
  | permissionDenied
  | invalidData
  | other
deriving DecidableEq, Repr

structure IoError where
  kind : IoErrorKind
  message : String
deriving DecidableEq, Repr

mutual

/-- What stands under a name. -/
inductive Node where
  /-- A regular file; reading it can fail, also for not being UTF-8. -/
  | file (text : Except IoError String)
  /-- A directory; opening it to list it can fail. -/
  | dir (opens : Bool) (entries : Entries)
  /-- A link, which is not followed, or something else. -/
  | other

/-- The entries of a directory in the order of its listing. In place of an entry the
listing can give an error. -/
inductive Entries where
  | nil
  | cons (name : OsString) (listed : Bool) (node : Node) (rest : Entries)

end

/-- `Path::is_dir`. -/
def Node.isDir : Node → Bool
  | .dir _ _ => true
  | .file _ | .other => false

/-- What the walk yields for an entry; a file comes with what reading it gives. -/
inductive FileType where
  | file (text : Except IoError String)
  | dir
  | other

structure DirEntry where
  path : Path
  fileType : FileType

structure YamlFile where
  path : Path
  text : Except IoError String

/-! ## The walk -/

mutual

/-- The walk from a node on, each directory before what is in it; `none` is an error. -/
def Node.walk (path : Path) : Node → List (Option DirEntry)
  | .file text => [some ⟨path, .file text⟩]
  | .dir opens entries =>
    some ⟨path, .dir⟩ :: if opens then entries.walk path else [none]
  | .other => [some ⟨path, .other⟩]

def Entries.walk (path : Path) : Entries → List (Option DirEntry)
  | .nil => []
  | .cons name listed node rest =>
    (if listed then node.walk (path ++ [name]) else [none]) ++ rest.walk path

end

/-- What follows the last dot, unless that dot is the first character. -/
def extension (name : OsString) : Option OsString :=
  match name.reverse.dropWhile (· ≠ 46) with
  | [] | [_] => none
  | _ :: _ :: _ => some (name.reverse.takeWhile (· ≠ 46)).reverse

def isYaml (p : Path) : Bool :=
  match p.getLast?.bind extension with
  | some e => e = "yaml".toUTF8.data.toList || e = "yml".toUTF8.data.toList
  | none => false

/-- The files with their paths, of the entries that are regular files. -/
def DirEntry.file? (e : DirEntry) : Option YamlFile :=
  match e.fileType with
  | .file text => some ⟨e.path, text⟩
  | .dir | .other => none

/-- Paths are ordered by their components. -/
def comparePaths (f g : YamlFile) : Ordering := compare f.path g.path

instance : Std.TransCmp comparePaths := transCmp_on YamlFile.path

/-- What the walk found before it is sorted. -/
def Node.walked (root : Node) : List YamlFile :=
  (((root.walk []).filterMap id).filterMap DirEntry.file?).filter fun f => isYaml f.path

/-- The files to read, sorted. -/
def Node.files (root : Node) : List YamlFile := root.walked.insertionSort (LeBy comparePaths)

/-! ## Loading -/

inductive RawLoadError where
  | io (path : Path) (source : IoError)
  | parse (e : ManifestParseError)
deriving DecidableEq, Repr

/-- How loading can stop. -/
inductive LoadAbort where
  | error (e : RawLoadError)
  | panic (message : String)
deriving DecidableEq, Repr

/-- `#[from] ManifestParseError`. -/
def LoadAbort.ofParse : Abort → LoadAbort
  | .error e => .error (.parse e)
  | .panic message => .panic message

section

-- the documents of a text, and the label of a path
variable [FloatText] (yaml : String → List (Except String Value)) (display : Path → String)

def loadFile (f : YamlFile) : Except LoadAbort (List Manifest) :=
  match f.text with
  | .error source => .error (.error (.io f.path source))
  | .ok text =>
    match parseStream (display f.path) (yaml text) with
    | .ok manifests => .ok manifests
    | .error e => .error (.ofParse e)

/-- The loop over the files. -/
def loadFiles : List YamlFile → Except LoadAbort (List Manifest)
  | [] => .ok []
  | f :: rest => do
    let manifests ← loadFile yaml display f
    let out ← loadFiles rest
    return manifests ++ out

/-- Load all manifests from a directory tree. -/
def loadDir (root : Node) : Except LoadAbort (List Manifest) :=
  if root.isDir then loadFiles yaml display root.files
  else .error (.error (.io [] ⟨.notFound,
    "source path \x60" ++ display [] ++ "\x60 is not a directory"⟩))

end

/-! ## What is there -/

/-- A YAML file below the source, and whether the listings lead to it. -/
structure Found where
  file : YamlFile
  listed : Bool

mutual

/-- Every regular YAML file at a node or below it. -/
def Node.found (listed : Bool) (path : Path) : Node → List Found
  | .file text => if isYaml path then [⟨⟨path, text⟩, listed⟩] else []
  | .dir opens entries => entries.found (listed && opens) path
  | .other => []

def Entries.found (listed : Bool) (path : Path) : Entries → List Found
  | .nil => []
  | .cons name here node rest =>
    node.found (listed && here) (path ++ [name]) ++ rest.found listed path

end

/-- Every regular YAML file below the source. -/
def Node.yamlFiles (root : Node) : List Found := root.found true []

mutual

theorem Node.listed_of_unlisted (path : Path) : ∀ node : Node, ∀ f ∈ node.found false path,
    f.listed = false
  | .file text, f, hf => by
      rw [Node.found] at hf
      split at hf
      · rw [List.mem_singleton.mp hf]
      · exact absurd hf List.not_mem_nil
  | .dir opens entries, f, hf => by
      rw [Node.found, Bool.false_and] at hf
      exact entries.listed_of_unlisted path f hf
  | .other, f, hf => absurd hf List.not_mem_nil

theorem Entries.listed_of_unlisted (path : Path) : ∀ entries : Entries,
    ∀ f ∈ entries.found false path, f.listed = false
  | .nil, f, hf => absurd hf List.not_mem_nil
  | .cons name here node rest, f, hf => by
      rw [Entries.found, Bool.false_and, List.mem_append] at hf
      rcases hf with hf | hf
      · exact node.listed_of_unlisted _ f hf
      · exact rest.listed_of_unlisted path f hf

end

/-- The files of what a walk yields. -/
def yamlOf (walk : List (Option DirEntry)) : List YamlFile :=
  ((walk.filterMap id).filterMap DirEntry.file?).filter fun f => isYaml f.path

@[simp] theorem yamlOf_append (v w : List (Option DirEntry)) :
    yamlOf (v ++ w) = yamlOf v ++ yamlOf w := by
  unfold yamlOf
  rw [List.filterMap_append, List.filterMap_append, List.filter_append]

@[simp] theorem yamlOf_error : yamlOf [none] = [] := rfl

/-- Those to which the listings lead. -/
def listedOf (fs : List Found) : List YamlFile := (fs.filter (·.listed)).map Found.file

@[simp] theorem listedOf_append (fs gs : List Found) :
    listedOf (fs ++ gs) = listedOf fs ++ listedOf gs := by
  unfold listedOf
  rw [List.filter_append, List.map_append]

theorem listedOf_unlisted {fs : List Found} (h : ∀ f ∈ fs, f.listed = false) :
    listedOf fs = [] := by
  have hnone : fs.filter (·.listed) = [] :=
    List.filter_eq_nil_iff.mpr fun f hf => by rw [h f hf]; exact Bool.false_ne_true
  rw [listedOf, hnone, List.map_nil]

mutual

/-- **The walk finds the files to which the listings lead, and no others.** -/
theorem Node.yamlOf_walk (path : Path) : ∀ node : Node,
    yamlOf (node.walk path) = listedOf (node.found true path)
  | .file text => by
      cases hp : isYaml path with
      | true => simp [Node.walk, Node.found, yamlOf, DirEntry.file?, listedOf, hp]
      | false => simp [Node.walk, Node.found, yamlOf, DirEntry.file?, listedOf, hp]
  | .dir opens entries => by
      cases opens with
      | false =>
          rw [Node.found, Bool.and_false, listedOf_unlisted (entries.listed_of_unlisted path)]
          rfl
      | true =>
          rw [Node.found, Bool.and_true, ← entries.yamlOf_walk path]
          rfl
  | .other => rfl

theorem Entries.yamlOf_walk (path : Path) : ∀ entries : Entries,
    yamlOf (entries.walk path) = listedOf (entries.found true path)
  | .nil => rfl
  | .cons name here node rest => by
      rw [Entries.walk, Entries.found, yamlOf_append, listedOf_append, rest.yamlOf_walk path,
        Bool.true_and]
      cases here with
      | false =>
          rw [listedOf_unlisted (node.listed_of_unlisted _)]
          rfl
      | true =>
          rw [← node.yamlOf_walk]
          rfl

end

theorem Node.files_perm (root : Node) : root.files.Perm (listedOf root.yamlFiles) := by
  have hwalk : root.walked = listedOf root.yamlFiles := root.yamlOf_walk []
  rw [← hwalk]
  exact root.walked.perm_insertionSort _

theorem Node.mem_files {root : Node} {f : YamlFile} :
    f ∈ root.files ↔ ⟨f, true⟩ ∈ root.yamlFiles := by
  rw [root.files_perm.mem_iff, listedOf, List.mem_map]
  constructor
  · rintro ⟨found, hfound, rfl⟩
    obtain ⟨hmem, hlisted⟩ := List.mem_filter.mp hfound
    rw [← hlisted]
    exact hmem
  · intro h
    exact ⟨⟨f, true⟩, List.mem_filter.mpr ⟨h, rfl⟩, rfl⟩

/-- All of them are read exactly if the listings lead to all of them. -/
theorem Node.files_perm_iff {root : Node} : root.files.Perm (root.yamlFiles.map Found.file) ↔
    ∀ f ∈ root.yamlFiles, f.listed = true := by
  constructor
  · intro h
    have hlen : (root.yamlFiles.filter (·.listed)).length = root.yamlFiles.length := by
      have := (root.files_perm.symm.trans h).length_eq
      rwa [listedOf, List.length_map, List.length_map] at this
    exact List.length_filter_eq_length_iff.mp hlen
  · intro h
    have hall : root.yamlFiles.filter (·.listed) = root.yamlFiles := List.filter_eq_self.mpr h
    have := root.files_perm
    rwa [listedOf, hall] at this

/-! ## What a file holds -/

/-- Empty, or with everything a manifest needs. -/
def Acceptable (v : Value) : Prop :=
  v.isNull = true ∨ v.hasRequiredFields = true ∧ v.textKeyed = true

section

variable [FloatText]

/-- **The manifests of a stream are those of its documents**, the empty ones passed over,
one each and in their order. -/
theorem forall₂_of_parseDocs {label : String} {docs : List (Except String Value)} {i : Nat}
    {ms : List Manifest} (h : parseDocs label i docs = .ok ms) :
    ∃ vs : List Value, docs = vs.map .ok ∧ (∀ v ∈ vs, Acceptable v) ∧
      Forall₂ (fun v m => ∃ j, valueToManifest label j v = .ok m) (vs.filter (!·.isNull)) ms := by
  induction docs generalizing i ms with
  | nil =>
      obtain rfl := Except.ok.inj h
      exact ⟨[], rfl, nofun, .nil⟩
  | cons d docs ih =>
      cases d with
      | error source => simp [parseDocs] at h
      | ok v =>
          rw [parseDocs] at h
          by_cases hnull : v.isNull = true
          · rw [if_pos hnull] at h
            obtain ⟨vs, rfl, hvs, hms⟩ := ih h
            refine ⟨v :: vs, rfl, List.forall_mem_cons.mpr ⟨.inl hnull, hvs⟩, ?_⟩
            rw [List.filter_cons_of_neg (by simp [hnull])]
            exact hms
          · rw [if_neg hnull] at h
            rcases valueToManifest_cases label i v with ⟨-, e, he⟩ | ⟨-, -, msg, he⟩ | ⟨hf, ht, m, hm⟩
            · rw [he] at h; simp [bind, Except.bind] at h
            · rw [he] at h; simp [bind, Except.bind] at h
            · rw [hm] at h
              cases hrest : parseDocs label (i + 1) docs with
              | error a => rw [hrest] at h; simp [bind, Except.bind] at h
              | ok rest =>
                  rw [hrest] at h
                  obtain rfl := Except.ok.inj h
                  obtain ⟨vs, rfl, hvs, hms⟩ := ih hrest
                  refine ⟨v :: vs, rfl, List.forall_mem_cons.mpr ⟨.inr ⟨hf, ht⟩, hvs⟩, ?_⟩
                  rw [List.filter_cons_of_pos (by simp [hnull])]
                  exact .cons ⟨i, hm⟩ hms

theorem parseDocs_of_acceptable {label : String} {vs : List Value} (h : ∀ v ∈ vs, Acceptable v)
    (i : Nat) : ∃ ms, parseDocs label i (vs.map .ok) = .ok ms := by
  induction vs generalizing i with
  | nil => exact ⟨[], rfl⟩
  | cons v vs ih =>
      obtain ⟨hv, hvs⟩ := List.forall_mem_cons.mp h
      obtain ⟨rest, hrest⟩ := ih hvs (i + 1)
      rw [List.map_cons, parseDocs]
      by_cases hnull : v.isNull = true
      · rw [if_pos hnull]
        exact ⟨rest, hrest⟩
      · rw [if_neg hnull]
        obtain ⟨hf, ht⟩ := hv.resolve_left hnull
        rcases valueToManifest_cases label i v with ⟨hf', -⟩ | ⟨-, ht', -⟩ | ⟨-, -, m, hm⟩
        · rw [hf] at hf'; cases hf'
        · rw [ht] at ht'; cases ht'
        · rw [hm, hrest]
          exact ⟨m :: rest, rfl⟩

end

section

variable (yaml : String → List (Except String Value)) (display : Path → String)

/-- The file can be read, and every document in it is empty or a manifest. -/
def Readable (f : YamlFile) : Prop :=
  ∃ text, ∃ vs : List Value, f.text = .ok text ∧ yaml text = vs.map .ok ∧ ∀ v ∈ vs, Acceptable v

variable [FloatText]

/-- The file was read, and `ms` are its documents: those that are not empty, one manifest
each, in their order. -/
def Holds (f : YamlFile) (ms : List Manifest) : Prop :=
  ∃ text, ∃ vs : List Value, f.text = .ok text ∧ yaml text = vs.map .ok ∧
    Forall₂ (fun v m => ∃ j, valueToManifest (display f.path) j v = .ok m)
      (vs.filter (!·.isNull)) ms

variable {yaml display}

theorem loadFile_ok {f : YamlFile} {ms : List Manifest} (h : loadFile yaml display f = .ok ms) :
    Readable yaml f ∧ Holds yaml display f ms := by
  unfold loadFile at h
  cases htext : f.text with
  | error source => rw [htext] at h; simp at h
  | ok text =>
      rw [htext] at h
      dsimp only at h
      cases hdocs : parseStream (display f.path) (yaml text) with
      | error a => rw [hdocs] at h; simp at h
      | ok manifests =>
          rw [hdocs] at h
          obtain rfl := Except.ok.inj h
          obtain ⟨vs, hvs, hok, hms⟩ := forall₂_of_parseDocs hdocs
          exact ⟨⟨text, vs, htext, hvs, hok⟩, text, vs, htext, hvs, hms⟩

theorem loadFile_of_readable {f : YamlFile} (h : Readable yaml f) :
    ∃ ms, loadFile yaml display f = .ok ms := by
  obtain ⟨text, vs, htext, hvs, hok⟩ := h
  obtain ⟨ms, hms⟩ := parseDocs_of_acceptable hok 0
  refine ⟨ms, ?_⟩
  unfold loadFile parseStream
  rw [htext]
  dsimp only
  rw [hvs, hms]

/-- What the loop gives is what the files hold, file by file. -/
theorem loadFiles_ok {fs : List YamlFile} {ms : List Manifest}
    (h : loadFiles yaml display fs = .ok ms) :
    (∀ f ∈ fs, Readable yaml f) ∧
      ∃ parts, Forall₂ (Holds yaml display) fs parts ∧ ms = parts.flatten := by
  induction fs generalizing ms with
  | nil =>
      obtain rfl := Except.ok.inj h
      exact ⟨nofun, [], .nil, rfl⟩
  | cons f fs ih =>
      rw [loadFiles] at h
      cases hf : loadFile yaml display f with
      | error a => rw [hf] at h; simp [bind, Except.bind] at h
      | ok part =>
      cases hrest : loadFiles yaml display fs with
      | error a => rw [hf, hrest] at h; simp [bind, Except.bind] at h
      | ok out =>
          rw [hf, hrest] at h
          obtain rfl := Except.ok.inj h
          obtain ⟨hread, hholds⟩ := loadFile_ok hf
          obtain ⟨hreads, parts, hparts, rfl⟩ := ih hrest
          exact ⟨List.forall_mem_cons.mpr ⟨hread, hreads⟩, part :: parts, .cons hholds hparts, rfl⟩

theorem loadFiles_of_readable {fs : List YamlFile} (h : ∀ f ∈ fs, Readable yaml f) :
    ∃ ms, loadFiles yaml display fs = .ok ms := by
  induction fs with
  | nil => exact ⟨[], rfl⟩
  | cons f fs ih =>
      obtain ⟨hf, hfs⟩ := List.forall_mem_cons.mp h
      obtain ⟨part, hpart⟩ := @loadFile_of_readable yaml display _ _ hf
      obtain ⟨out, hout⟩ := ih hfs
      refine ⟨part ++ out, ?_⟩
      rw [loadFiles, hpart, hout]
      rfl

/-! ## All or nothing -/

variable (yaml display)

/-- A load that succeeds has read every YAML file below the source, in the order of the
paths, and gives what they hold. -/
def AllOrNothing (root : Node) : Prop :=
  ∀ ms, loadDir yaml display root = .ok ms →
    root.files.Perm (root.yamlFiles.map Found.file) ∧ root.files.Pairwise (LeBy comparePaths) ∧
      ∃ parts, Forall₂ (Holds yaml display) root.files parts ∧ ms = parts.flatten

/--
**Loading is all or nothing exactly when no failed listing has a YAML file behind it.**

Or when the load fails anyway: the source is not a directory, or a file to which
the listings lead cannot be read or holds a document that is no manifest.
-/
theorem allOrNothing_iff (root : Node) : AllOrNothing yaml display root ↔
    root.isDir = false ∨ (∃ f, ⟨f, true⟩ ∈ root.yamlFiles ∧ ¬Readable yaml f) ∨
      ∀ f ∈ root.yamlFiles, f.listed = true := by
  unfold AllOrNothing loadDir
  constructor
  · intro h
    by_cases hdir : root.isDir = true
    · refine .inr ?_
      by_cases hread : ∀ f ∈ root.files, Readable yaml f
      · obtain ⟨ms, hms⟩ := @loadFiles_of_readable yaml display _ _ hread
        rw [if_pos hdir] at h
        exact .inr (Node.files_perm_iff.mp (h ms hms).1)
      · obtain ⟨f, hf, hnot⟩ := by simpa using hread
        exact .inl ⟨f, Node.mem_files.mp hf, hnot⟩
    · exact .inl (by simpa using hdir)
  · intro h ms hms
    by_cases hdir : root.isDir = true
    · rw [if_pos hdir] at hms
      obtain ⟨hread, hparts⟩ := loadFiles_ok hms
      rcases h with hroot | ⟨f, hf, hnot⟩ | hall
      · rw [hdir] at hroot; cases hroot
      · exact absurd (hread f (Node.mem_files.mpr hf)) hnot
      · exact ⟨Node.files_perm_iff.mpr hall, pairwise_sort _, hparts⟩
    · rw [if_neg hdir] at hms
      cases hms

variable {yaml display} in
/-- **What only unlisted files hold is deleted.** -/
theorem unlisted_deleted {root : Node} {ms live : List Manifest} {l : Manifest}
    (h : loadDir yaml display root = .ok ms) (hl : l ∈ live)
    (hhidden : ∀ f part, ⟨f, true⟩ ∈ root.yamlFiles → Holds yaml display f part →
      ∀ m ∈ part, ResourceRef.of m ≠ ResourceRef.of l) :
    ⟨ResourceRef.of l, .delete⟩ ∈ (plan ms live).entries := by
  refine delete_mem_plan.mpr ⟨fun m hm => ?_, l, hl, rfl⟩
  unfold loadDir at h
  by_cases hdir : root.isDir = true
  · rw [if_pos hdir] at h
    obtain ⟨-, parts, hparts, rfl⟩ := loadFiles_ok h
    obtain ⟨part, hpart, hm⟩ := List.mem_flatten.mp hm
    obtain ⟨f, hf, hholds⟩ := exists_of_forall₂ hparts.flip part hpart
    exact hhidden f part (Node.mem_files.mp hf) hholds m hm
  · rw [if_neg hdir] at h
    cases h

end

/-! ## A directory that cannot be opened -/

/-- A text names the one config map in it. -/
def oneConfigMap (text : String) : List (Except String Value) :=
  [.ok (configMap text "v1").body.value]

/-- `base/settings.yaml`, with `base` not open to the server. -/
def closedBase : Node :=
  .dir true (.cons "base".toUTF8.data.toList true
    (.dir false (.cons "settings.yaml".toUTF8.data.toList true (.file (.ok "settings")) .nil)) .nil)

/-- The load of a source with a directory that cannot be opened succeeds with nothing, and
what the directory holds is planned to be deleted. -/
theorem closedBase_loads_nothing : ¬ @AllOrNothing oneConfigMap (fun _ => "") .ofBits closedBase
    ∧ @loadDir .ofBits oneConfigMap (fun _ => "") closedBase = .ok []
    ∧ ⟨ResourceRef.of (configMap "settings" "v1"), .delete⟩
        ∈ (plan [] [configMap "settings" "v1"]).entries := by
  have hload : @loadDir .ofBits oneConfigMap (fun _ => "") closedBase = .ok [] := by rfl
  refine ⟨fun h => ?_, hload, ?_⟩
  · have hlen := (h [] hload).1.length_eq
    exact absurd hlen (by decide)
  · refine @unlisted_deleted _ _ .ofBits _ _ _ _ hload List.mem_cons_self fun f part hf => ?_
    have hnone : listedOf closedBase.yamlFiles = [] := by rfl
    rw [listedOf, List.map_eq_nil_iff, List.filter_eq_nil_iff] at hnone
    exact absurd rfl (hnone _ hf)

end SynchrotronCD.Raw
