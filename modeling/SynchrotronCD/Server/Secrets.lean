import SynchrotronCD.Lib.Paths
import SynchrotronCD.Lib.Text
import SynchrotronCD.Server.Config

/-!
# Secrets

A repository names its secret in the configuration. The name is looked up in the
environment and then in a directory of files, and what is found is read as credentials.

A name chooses among the variables of the prefix and the files below the directory, and
nothing else: two machines that agree on those resolve every configuration alike
(`secrets_confined`).
-/

namespace SynchrotronCD.Secrets

open Lib ServerConfig

/-- What a process finds around it. -/
structure World where
  /-- The variables that are set and are text. -/
  env : String → Option String
  files : String → FileAt ByteArray

inductive SecretError where
  | notFound (name : String)
  | io (name path source : String)
  | invalidUtf8 (name : String)
deriving DecidableEq, Repr

/-- A backend, by what `get` does in a world. -/
abbrev SecretStore := World → String → Except SecretError String

/-- The first hit wins; only `notFound` lets the next backend answer. -/
def CompositeSecretStore (stores : List SecretStore) : SecretStore := fun w name =>
  match stores with
  | [] => .error (.notFound name)
  | store :: rest =>
    match store w name with
    | .ok v => .ok v
    | .error (.notFound _) => CompositeSecretStore rest w name
    | .error e => .error e

/-! ## The backends -/

section

-- `to_uppercase`
variable (upper : String → String)

/-- The prefix and the name in capitals, `-` read as `_`. -/
def envName (pre name : String) : String :=
  pre ++ String.ofList ((upper name).toList.map fun c => if c = '-' then '_' else c)

def EnvSecretStore (pre : String) : SecretStore := fun w name =>
  match w.env (envName upper pre name) with
  | some v => .ok v
  | none => .error (.notFound name)

/-- The names in a path; `..`, `.` and the root are dropped. -/
def normalComponents (name : String) : List String :=
  (FilePath.ofText name).components.filterMap fun
    | .normal s => some s
    | .parent => none

def pathFor (root name : String) : String :=
  joinPath root ((normalComponents name).foldl joinPath "")

/-- One newline at the end is not part of the secret. -/
def stripNewline (s : String) : String :=
  if s.toList.getLast? = some '\n' then String.ofList s.toList.dropLast else s

def FileSecretStore (root : String) : SecretStore := fun w name =>
  let path := pathFor root name
  match w.files path with
  | .absent => .error (.notFound name)
  | .unreadable source => .error (.io name path source)
  | .file bytes =>
    match String.fromUTF8? bytes with
    | none => .error (.invalidUtf8 name)
    | some s => .ok (stripNewline s)

def NoopSecretStore : SecretStore := fun _ name => .error (.notFound name)

structure SecretsSection where
  envPrefix : Option String
  fileDir : Option String
deriving DecidableEq, Repr

/-- The environment first, then the files. -/
def buildSecretStore (cfg : SecretsSection) : SecretStore :=
  let stores := (cfg.envPrefix.map (EnvSecretStore upper)).toList
    ++ (cfg.fileDir.map FileSecretStore).toList
  if stores.isEmpty then NoopSecretStore else CompositeSecretStore stores

/-! ## Credentials -/

inductive Credentials where
  | none
  | httpBasic (username password : String)
  | sshKey (username privateKey : String) (publicKey passphrase : Option String)
  | sshAgent (username : String)
  | gitHubApp (appId installationId : UInt64) (privateKeyPath : String) (apiBase : Option String)
deriving DecidableEq, Repr

inductive ResolveCredsError where
  | lookup (e : SecretError)
  | parse (e : String)
deriving DecidableEq, Repr

/-- What a secret's text may be read as. -/
structure Parsers where
  json : String → Except String Credentials
  yaml : String → Except String Credentials

/-- JSON first, then YAML, whose error is the one reported. -/
def resolveCredentials (parsers : Parsers) (secretName : Option String) (secrets : SecretStore)
    (w : World) : Except ResolveCredsError Credentials :=
  match secretName with
  | .none => .ok .none
  | .some name =>
    match secrets w name with
    | .error e => .error (.lookup e)
    | .ok value =>
      match parsers.json value with
      | .ok c => .ok c
      | .error _ =>
        match parsers.yaml value with
        | .ok c => .ok c
        | .error e => .error (.parse e)

/-- `build_repo_map`: a repository whose secret fails is fetched anonymously. -/
def repoCredentials (parsers : Parsers) (cfg : SecretsSection) (repos : List RepoCfg) (w : World) :
    List (String × Credentials) :=
  repos.map fun r =>
    (r.url, match resolveCredentials parsers r.credentialsSecret (buildSecretStore upper cfg) w with
      | .ok c => c
      | .error _ => .none)

end

/-! ## Where a name can lead -/

theorem plainPiece_of_ofPiece {piece : List Char} {s : String} (hslash : '/' ∉ piece)
    (h : Component.ofPiece piece = some (.normal s)) : PlainPiece s := by
  unfold Component.ofPiece at h
  by_cases hempty : piece = [] ∨ piece = ['.']
  · rw [if_pos hempty] at h
    cases h
  by_cases hdots : piece = ['.', '.']
  · rw [if_neg hempty, if_pos hdots] at h
    cases h
  rw [if_neg hempty, if_neg hdots] at h
  obtain rfl : String.ofList piece = s := Component.normal.inj (Option.some.inj h)
  obtain ⟨hnil, hdot⟩ := not_or.mp hempty
  refine ⟨fun he => hnil ?_, fun he => hdot ?_, fun he => hdots ?_, ?_⟩
  · exact String.ofList_inj.mp he
  · exact String.ofList_inj.mp he
  · exact String.ofList_inj.mp he
  · rwa [String.toList_ofList]

theorem plainPiece_of_mem_normalComponents {name s : String} (h : s ∈ normalComponents name) :
    PlainPiece s := by
  unfold normalComponents at h
  obtain ⟨c, hc, hs⟩ := List.mem_filterMap.mp h
  cases c with
  | parent => cases hs
  | normal t =>
      obtain rfl : t = s := Option.some.inj hs
      obtain ⟨piece, hpiece, hof⟩ := List.mem_filterMap.mp hc
      exact plainPiece_of_ofPiece (Lib.notMem_of_mem_splitOn hpiece) hof

/-- Whatever the name, the file is below the directory: `..` does not lead out of it. -/
theorem pathFor_below (root name : String) :
    FilePath.Below (.ofText root) (.ofText (pathFor root name)) := by
  have hplain : ∀ s ∈ normalComponents name, PlainPiece s :=
    fun s hs => plainPiece_of_mem_normalComponents hs
  have hjoin : FilePath.ofText (pathFor root name)
      = .ofText ((normalComponents name).foldl joinPath root) := by
    unfold pathFor
    rw [FilePath.ofText_joinPath, FilePath.ofText_joinPaths_plain hplain ""]
    exact (FilePath.ofText_joinPaths_plain hplain root).symm
  rw [hjoin]
  exact FilePath.below_joinPaths_iff.mpr (FilePath.contained_plain hplain) root

example : pathFor "/run/secrets" "../../etc//passwd" = "/run/secrets/etc/passwd" := by decide

/-- Two worlds agree on the variables of the prefix and on the files below the directory. -/
structure AgreeOn (cfg : SecretsSection) (w w' : World) : Prop where
  env : ∀ pre ∈ cfg.envPrefix, ∀ rest : String, w.env (pre ++ rest) = w'.env (pre ++ rest)
  files : ∀ dir ∈ cfg.fileDir, ∀ path : String, FilePath.Below (.ofText dir) (.ofText path) →
    w.files path = w'.files path

section

variable {upper : String → String} {w w' : World}

theorem CompositeSecretStore.congr {stores : List SecretStore} {name : String}
    (h : ∀ store ∈ stores, store w name = store w' name) :
    CompositeSecretStore stores w name = CompositeSecretStore stores w' name := by
  induction stores with
  | nil => rfl
  | cons store rest ih =>
      have hrest := ih fun s hs => h s (List.mem_cons_of_mem _ hs)
      rw [CompositeSecretStore, CompositeSecretStore, h store List.mem_cons_self, hrest]

theorem buildSecretStore_congr {cfg : SecretsSection} (h : AgreeOn cfg w w') (name : String) :
    buildSecretStore upper cfg w name = buildSecretStore upper cfg w' name := by
  unfold buildSecretStore
  split
  · rfl
  refine CompositeSecretStore.congr fun store hstore => ?_
  rcases List.mem_append.mp hstore with henv | hfile
  · obtain ⟨pre, hpre, rfl⟩ := Option.map_eq_some_iff.mp (Option.mem_toList.mp henv)
    unfold EnvSecretStore envName
    rw [h.env pre hpre]
  · obtain ⟨dir, hdir, rfl⟩ := Option.map_eq_some_iff.mp (Option.mem_toList.mp hfile)
    unfold FileSecretStore
    dsimp only
    rw [h.files dir hdir _ (pathFor_below dir name)]

theorem resolveCredentials_congr {parsers : Parsers} {cfg : SecretsSection} (h : AgreeOn cfg w w')
    (secretName : Option String) :
    resolveCredentials parsers secretName (buildSecretStore upper cfg) w
      = resolveCredentials parsers secretName (buildSecretStore upper cfg) w' := by
  cases secretName with
  | none => rfl
  | some name =>
      unfold resolveCredentials
      dsimp only
      rw [buildSecretStore_congr h name]

/-- **What a configuration can read is what its backends were given.** -/
theorem secrets_confined {parsers : Parsers} {cfg : SecretsSection} (h : AgreeOn cfg w w')
    (repos : List RepoCfg) :
    repoCredentials upper parsers cfg repos w = repoCredentials upper parsers cfg repos w' := by
  unfold repoCredentials
  exact List.map_congr_left fun r _ => by rw [resolveCredentials_congr h]

end

/-- Two machines that differ in what is outside the directory. -/
def machine (passwd : String) : World where
  env _ := none
  files path :=
    if path = "/etc/passwd" then .file passwd.toUTF8
    else if path = "/run/secrets/token" then .file "tok\n".toUTF8
    else .absent

def mounted : SecretsSection := ⟨none, some "/run/secrets"⟩

theorem machine_agree (a b : String) : AgreeOn mounted (machine a) (machine b) where
  env pre hpre := nomatch hpre
  files dir hdir path hbelow := by
    obtain rfl : "/run/secrets" = dir := Option.some.inj hdir
    have hne : path ≠ "/etc/passwd" := by
      rintro rfl
      obtain ⟨names, hn⟩ := hbelow
      have hlead : [.normal "etc", .normal "passwd"]
          = [.normal "run", .normal "secrets"] ++ names.map Component.normal :=
        congrArg FilePath.components hn
      simp at hlead
    unfold machine
    dsimp only
    rw [if_neg hne, if_neg hne]

/-- A name that tries to climb out of the directory. -/
def climbing : RepoCfg := ⟨"shop", "https://git/shop", none, some "../../etc/passwd"⟩

theorem climbing_confined : AgreeOn mounted (machine "a") (machine "b")
    ∧ repoCredentials id ⟨fun t => .ok (.sshAgent t), .error⟩ mounted [climbing] (machine "a")
      = repoCredentials id ⟨fun t => .ok (.sshAgent t), .error⟩ mounted [climbing] (machine "b") :=
  ⟨machine_agree "a" "b", secrets_confined (machine_agree "a" "b") [climbing]⟩

end SynchrotronCD.Secrets
