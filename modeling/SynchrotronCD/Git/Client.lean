import SynchrotronCD.Lib.Assoc

/-!
# The git client

A bare clone for each repository, fetched branch by branch, and working
directories into which the tree of a commit is written. What `origin` answers is
an argument of the operations that ask it. A commit determines its tree, in
whatever clone it is found.

`materialize` writes files and removes none: what it leaves in a directory is the
tree over what was there (`writeTree_apply`).
-/

namespace SynchrotronCD.Git

open Lib

/-- The id of a commit, in hexadecimal. -/
abbrev Sha := String

/-! ## Repositories -/

/-- The hash function repositories and render parameters are known by. -/
class Sha256 where
  digest : List UInt8 → List UInt8

def hexDigit (n : Nat) : Char := Char.ofNat (if n < 10 then 48 + n else 87 + n)

/-- `hex::encode`. -/
def hexEncode (bytes : List UInt8) : String :=
  String.ofList (bytes.flatMap fun b => [hexDigit (b.toNat / 16), hexDigit (b.toNat % 16)])

/-- Filesystem-safe identifier of a repository, derived from its URL. -/
abbrev RepoId := String

def RepoId.fromUrl [Sha256] (url : String) : RepoId :=
  hexEncode (Sha256.digest url.toUTF8.data.toList)

/-- A single git repository under management. -/
structure Repo where
  id : RepoId
  url : String
  /-- Branch to track. -/
  branch : String
deriving DecidableEq, Repr

def Repo.new [Sha256] (url branch : String) : Repo := ⟨.fromUrl url, url, branch⟩

/-! ## Trees and directories -/

structure File where
  content : List UInt8
  executable : Bool
deriving DecidableEq, Repr

/-- An entry of a git tree; submodules and the like are not supported. -/
inductive Object where
  | tree (entries : List (String × Object))
  | blob (file : File)
  | other

abbrev Tree := List (String × Object)

/-- The files under a directory, by path. -/
abbrev Dir := List String → Option File

def Dir.empty : Dir := fun _ => none

mutual

def Object.write (path : List String) : Object → Dir → Dir
  | .tree entries, dir => writeTree path entries dir
  | .blob file, dir => Function.update dir path (some file)
  | .other, dir => dir

/-- Write the entries of a tree under `base`. -/
def writeTree (base : List String) : List (String × Object) → Dir → Dir
  | [], dir => dir
  | (name, o) :: rest, dir => writeTree base rest (Object.write (base ++ [name]) o dir)

end

/-- A fresh checkout of a tree. -/
def checkout (tree : Tree) : Dir := writeTree [] tree .empty

/-! ## The disk -/

/-- A bare clone. -/
structure Bare where
  /-- `refs/heads`. -/
  heads : HashMap String Sha
  /-- The commits it has. -/
  commits : List Sha

structure Disk where
  bares : RepoId → Option Bare
  /-- The working directories, by name. -/
  work : String → Dir

inductive GitError where
  | git (message : String)
  | io (path source : String)
  | commitNotFound (sha : Sha)
  | invalidState (message : String)
  | unknownHostKey (host keyType : String)
  | hostKeyMismatch (host keyType : String)
deriving DecidableEq, Repr

def GitError.toText : GitError → String
  | .git message => "git2 error: " ++ message
  | .io path source => "io error at " ++ path ++ ": " ++ source
  | .commitNotFound sha => "commit not found: " ++ sha
  | .invalidState message => "invalid repository state: " ++ message
  | .unknownHostKey host keyType =>
    "unknown SSH host key for " ++ host ++ " (" ++ keyType ++ "); add to known_hosts to trust"
  | .hostKeyMismatch host keyType =>
    "SSH host key mismatch for " ++ host ++ " (" ++ keyType
      ++ "); known_hosts says different — possible MITM"

/-- What `origin` sends for a branch: where the branch is, and commits up to it. -/
structure Pack where
  head : Sha
  commits : List Sha
  head_mem : head ∈ commits

structure FetchResult where
  previousHead : Option Sha
  currentHead : Sha
  changed : Bool
deriving DecidableEq, Repr

namespace Disk

def putBare (d : Disk) (id : RepoId) (bare : Bare) : Disk :=
  { d with bares := Function.update d.bares id (some bare) }

def putWork (d : Disk) (name : String) (dir : Dir) : Disk :=
  { d with work := Function.update d.work name dir }

/-- Clone if the cache is missing; otherwise a no-op. -/
def ensureCloned (d : Disk) (repo : Repo) (clone : Except GitError Pack) :
    Disk × Except GitError Unit :=
  match d.bares repo.id with
  | some _ => (d, .ok ())
  | none =>
    match clone with
    | .ok pack =>
      (d.putBare repo.id ⟨AList.insert repo.branch pack.head ∅, pack.commits⟩, .ok ())
    | .error e => (d, .error e)

/-- The current head of the tracked branch in the cache. -/
def currentHead (d : Disk) (repo : Repo) : Except GitError Sha :=
  match d.bares repo.id with
  | none => .error (.git "could not find repository")
  | some bare =>
    match bare.heads.lookup repo.branch with
    | some head => .ok head
    | none => .error (.git ("reference 'refs/heads/" ++ repo.branch ++ "' not found"))

/-- The clone after its branch has been fetched. -/
def fetched (bare : Bare) (branch : String) (pack : Pack) : Bare :=
  ⟨bare.heads.insert branch pack.head, bare.commits ++ pack.commits⟩

/-- Fetch the tracked branch and report the change of its head. -/
def fetch (d : Disk) (repo : Repo) (clone answer : Except GitError Pack) :
    Disk × Except GitError FetchResult :=
  match d.ensureCloned repo clone with
  | (d, .error e) => (d, .error e)
  | (d, .ok ()) =>
    match d.bares repo.id, answer with
    | none, _ => (d, .error (.git "could not find repository"))
    | some _, .error e => (d, .error e)
    | some bare, .ok pack =>
      let previous := bare.heads.lookup repo.branch
      (d.putBare repo.id (fetched bare repo.branch pack),
        .ok ⟨previous, pack.head, previous ≠ some pack.head⟩)

/-- Write the tree of a commit into a working directory; existing contents are not removed. A
write may fail, and leave anything there. -/
def materialize (trees : Sha → Tree) (d : Disk) (repo : Repo) (commit : Sha) (target : String)
    (fault : Option (GitError × Dir)) : Disk × Except GitError Unit :=
  match d.bares repo.id with
  | none => (d, .error (.git "could not find repository"))
  | some bare =>
    if commit ∉ bare.commits then (d, .error (.commitNotFound commit))
    else
      match fault with
      | some (e, left) => (d.putWork target left, .error e)
      | none => (d.putWork target (writeTree [] (trees commit) (d.work target)), .ok ())

end Disk

/-! ## What a checkout leaves -/

mutual

theorem Object.write_apply (path : List String) : ∀ (o : Object) (dir : Dir) (p : List String),
    o.write path dir p = (o.write path .empty p).or (dir p)
  | .tree entries, dir, p => writeTree_apply path entries dir p
  | .blob file, dir, p => by
      unfold Object.write
      by_cases h : p = path
      · rw [h, Function.update_self, Function.update_self, Option.some_or]
      · rw [Function.update_of_ne h, Function.update_of_ne h]
        rfl
  | .other, dir, p => by
      unfold Object.write
      rfl

/-- **The tree over what was there.** -/
theorem writeTree_apply (base : List String) : ∀ (t : Tree) (dir : Dir) (p : List String),
    writeTree base t dir p = (writeTree base t .empty p).or (dir p)
  | [], dir, p => by
      unfold writeTree
      rfl
  | (name, o) :: rest, dir, p => by
      unfold writeTree
      rw [writeTree_apply base rest, writeTree_apply base rest (o.write _ .empty),
        Object.write_apply (base ++ [name]) o dir, Option.or_assoc]

end

/-- What is left is the tree exactly if nothing else was there. -/
theorem writeTree_eq_checkout {t : Tree} {dir : Dir} :
    writeTree [] t dir = checkout t ↔ ∀ p, checkout t p = none → dir p = none := by
  refine ⟨fun h p hp => ?_, fun h => funext fun p => ?_⟩
  · have hdir := congrFun h p
    rw [writeTree_apply, show writeTree [] t .empty p = none from hp, Option.none_or] at hdir
    exact hdir.trans hp
  · rw [writeTree_apply]
    cases hp : checkout t p with
    | none =>
        rw [show writeTree [] t .empty p = none from hp, h p hp]
        rfl
    | some file =>
        rw [show writeTree [] t .empty p = some file from hp]
        rfl

/-! ## What the operations do -/

namespace Disk

theorem putBare_bares (d : Disk) (id : RepoId) (bare : Bare) (i : RepoId) :
    (d.putBare id bare).bares i = if i = id then some bare else d.bares i := by
  show Function.update d.bares id (some bare) i = _
  rw [Function.update_apply]

/-- Where the tracked branch of a repository is. -/
def head (d : Disk) (repo : Repo) : Option Sha :=
  (d.bares repo.id).bind fun bare => bare.heads.lookup repo.branch

theorem currentHead_eq_ok {d : Disk} {repo : Repo} {h : Sha} :
    d.currentHead repo = .ok h ↔ d.head repo = some h := by
  unfold currentHead head
  cases d.bares repo.id with
  | none => simp
  | some bare =>
      rw [Option.bind_some]
      dsimp only
      cases bare.heads.lookup repo.branch with
      | none => simp
      | some head => simp

/-- A clone has a commit. -/
def Has (d : Disk) (id : RepoId) (commit : Sha) : Prop :=
  ∃ bare, d.bares id = some bare ∧ commit ∈ bare.commits

/-- Replacing a clone by one with as many commits loses none. -/
theorem Has.putBare {d : Disk} {id : RepoId} {commit : Sha} (h : d.Has id commit) {i : RepoId}
    {bare : Bare} (hmono : ∀ b, d.bares i = some b → b.commits ⊆ bare.commits) :
    (d.putBare i bare).Has id commit := by
  obtain ⟨b, hb, hmem⟩ := h
  by_cases hi : id = i
  · subst hi
    exact ⟨bare, by rw [putBare_bares, if_pos rfl], hmono b hb hmem⟩
  · exact ⟨b, by rw [putBare_bares, if_neg hi, hb], hmem⟩

theorem head_putBare (d : Disk) (id : RepoId) (bare : Bare) (repo : Repo) :
    (d.putBare id bare).head repo
      = if repo.id = id then bare.heads.lookup repo.branch else d.head repo := by
  unfold head
  rw [putBare_bares]
  by_cases h : repo.id = id
  · rw [if_pos h, if_pos h, Option.bind_some]
  · rw [if_neg h, if_neg h]

/-- What asking `origin` about a repository can do to the disk, with a result that reports a
moved head or does not. -/
structure Asked (d d' : Disk) (repo : Repo) (moved : Prop) : Prop where
  work : d'.work = d.work
  has : ∀ id commit, d.Has id commit → d'.Has id commit
  others : ∀ repo', ¬ (repo'.id = repo.id ∧ repo'.branch = repo.branch) → d'.head repo' = d.head repo'
  /-- Only a head that was not there moves unreported. -/
  kept : d'.head repo = d.head repo ∨ d.head repo = none ∨ moved

theorem asked_ensureCloned (d : Disk) (repo : Repo) (clone : Except GitError Pack) :
    Asked d (d.ensureCloned repo clone).1 repo False := by
  unfold ensureCloned
  cases hb : d.bares repo.id with
  | some bare => exact ⟨rfl, fun _ _ h => h, fun _ _ => rfl, Or.inl rfl⟩
  | none =>
      cases clone with
      | error e => exact ⟨rfl, fun _ _ h => h, fun _ _ => rfl, Or.inl rfl⟩
      | ok pack =>
          refine ⟨rfl, fun _ _ h => h.putBare fun b hb' => absurd (hb.symm.trans hb') (by simp),
            fun repo' hne => ?_, Or.inr (Or.inl (by unfold head; rw [hb]; rfl))⟩
          rw [head_putBare]
          by_cases hid : repo'.id = repo.id
          · have hbranch : repo'.branch ≠ repo.branch := fun h => hne ⟨hid, h⟩
            rw [if_pos hid, AList.lookup_insert_ne hbranch, AList.lookup_empty]
            unfold head
            rw [hid, hb]
            rfl
          · rw [if_neg hid]

/-- **What a fetch does.** -/
theorem asked_fetch (d : Disk) (repo : Repo) (clone answer : Except GitError Pack) :
    Asked d (d.fetch repo clone answer).1 repo
      (∃ res, (d.fetch repo clone answer).2 = .ok res ∧ res.previousHead ≠ some res.currentHead) := by
  have he := asked_ensureCloned d repo clone
  unfold fetch
  generalize d.ensureCloned repo clone = ensured at he ⊢
  obtain ⟨d₁, ensured⟩ := ensured
  have hens : ∀ moved, Asked d d₁ repo moved := fun moved =>
    ⟨he.work, he.has, he.others, Or.imp_right (Or.imp_right False.elim) he.kept⟩
  cases ensured with
  | error e => exact hens _
  | ok _ =>
  dsimp only
  cases hb : d₁.bares repo.id with
  | none => exact hens _
  | some bare =>
  cases answer with
  | error e => exact hens _
  | ok pack =>
      refine ⟨he.work, fun id commit h => (he.has id commit h).putBare fun b hb' => ?_,
        fun repo' hne => ?_, ?_⟩
      · obtain rfl := Option.some.inj (hb.symm.trans hb')
        exact List.subset_append_left _ _
      · rw [head_putBare]
        by_cases hid : repo'.id = repo.id
        · have hbranch : repo'.branch ≠ repo.branch := fun h => hne ⟨hid, h⟩
          have hold := he.others repo' hne
          unfold head at hold ⊢
          rw [if_pos hid, fetched, AList.lookup_insert_ne hbranch, ← hold, hid, hb, Option.bind_some]
        · rw [if_neg hid]
          exact he.others repo' hne
      · by_cases hmoved : bare.heads.lookup repo.branch = some pack.head
        · have hnow : (d₁.putBare repo.id (fetched bare repo.branch pack)).head repo = d₁.head repo := by
            rw [head_putBare, if_pos rfl]
            unfold head
            rw [hb, Option.bind_some, hmoved, fetched, AList.lookup_insert]
          rw [hnow]
          exact (hens _).kept
        · exact Or.inr (Or.inr ⟨_, rfl, hmoved⟩)

theorem fetch_ok {d : Disk} {repo : Repo} {clone answer : Except GitError Pack} {res : FetchResult}
    (h : (d.fetch repo clone answer).2 = .ok res) :
    (d.fetch repo clone answer).1.head repo = some res.currentHead
      ∧ (d.fetch repo clone answer).1.Has repo.id res.currentHead
      ∧ res.previousHead = (d.ensureCloned repo clone).1.head repo
      ∧ ∃ pack, answer = .ok pack ∧ pack.head = res.currentHead := by
  unfold fetch at h ⊢
  generalize d.ensureCloned repo clone = ensured at h ⊢
  obtain ⟨d₁, ensured⟩ := ensured
  cases ensured with
  | error e => simp at h
  | ok _ =>
  dsimp only at h ⊢
  cases hb : d₁.bares repo.id with
  | none => rw [hb] at h; simp at h
  | some bare =>
  cases answer with
  | error e => rw [hb] at h; simp at h
  | ok pack =>
      rw [hb] at h
      obtain rfl := Except.ok.inj h
      refine ⟨?_, ⟨fetched bare repo.branch pack, ?_, ?_⟩, ?_, pack, rfl, rfl⟩
      · rw [head_putBare, if_pos rfl, fetched, AList.lookup_insert]
      · rw [putBare_bares, if_pos rfl]
      · exact List.mem_append_right _ pack.head_mem
      · unfold head
        rw [hb, Option.bind_some]

end Disk

end SynchrotronCD.Git
