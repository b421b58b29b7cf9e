import SynchrotronCD.Git.Certificates
import SynchrotronCD.Lib.Paths

/-!
# The host-key policy

The section `git.ssh` of the config describes a verifier: its mode and its file. The
client that the server builds does not get it. So a host key is accepted under any
policy, and the policy is enforced only on the keys that it happens to accept itself
(`policy_enforced_iff`).
-/

namespace SynchrotronCD.HostKeyPolicy

open Lib Git

/-! ## Config -/

inductive SshHostKeyMode where
  | yes
  | ask
  | acceptNew
  | no
deriving DecidableEq, Repr

def SshHostKeyMode.toHostKeyMode : SshHostKeyMode → HostKeyMode
  | .yes => .yes
  | .ask => .ask
  | .acceptNew => .acceptNew
  | .no => .no

/-- SSH-specific transport settings. -/
structure SshSection where
  strictHostKeyChecking : SshHostKeyMode := .yes
  /-- Path to known_hosts. -/
  knownHosts : Option String := none
deriving DecidableEq, Repr

/-- Git transport settings. -/
structure GitSection where
  ssh : SshSection := {}
deriving DecidableEq, Repr

/-- The config, as far as it is about git's transport. -/
structure Config where
  git : GitSection := {}
deriving DecidableEq, Repr

/-- `home` is the environment variable `HOME`. -/
def defaultKnownHostsPath (home : Option String) : Except String String :=
  match home with
  | none => .error "$HOME is not set; specify git.ssh.known_hosts"
  | some home => .ok (joinPath (joinPath home ".ssh") "known_hosts")

/-- Build a verifier from the section. -/
def SshSection.toHostVerifier (s : SshSection) (home : Option String) (files : String → TextFile) :
    Except String HostVerifier := do
  let path ← match s.knownHosts with
    | some p => .ok p
    | none => defaultKnownHostsPath home
  match KnownHostsFile.load path (files path) with
  | .ok file => return ⟨s.strictHostKeyChecking.toHostKeyMode, file⟩
  | .error (.io _ source) => .error source
  | .error other => .error other.toText

/-- The client that the server builds: all it takes is a workspace. -/
def gitClient (_cfg : Config) : GitClient := .new

/-! ## Runs -/

/-- A client that has not been presented anything. -/
def started (client : GitClient) (files : String → TextFile) : ClientState :=
  ⟨client, files client.hostVerifier.file.path, none⟩

section

variable [Hmac]

/-- The key is accepted by a client with the verifier that the config describes, after the same
certificates. -/
def PolicyAccepts (cfg : Config) (home : Option String) (files : String → TextFile)
    (before : List Presented) (p : Presented) : Prop :=
  ∃ v, cfg.git.ssh.toHostVerifier home files = .ok v
    ∧ Accepts (exec present (started (.withHostVerifier v) files) before) p

/-- The verifier that the config describes trusts the key: it can be built, and either its mode
asks for nothing, or the key is in its file, or it takes the key as the host's first. -/
def PolicyTrusts (cfg : Config) (home : Option String) (files : String → TextFile)
    (before : List Presented) (p : Presented) (keyType : String) (keyBytes : Bytes) : Prop :=
  ∃ v, cfg.git.ssh.toHostVerifier home files = .ok v
    ∧ Trusts (exec present (started (.withHostVerifier v) files) before).client.hostVerifier p
      keyType keyBytes

theorem exec_present_mode (s : ClientState) (before : List Presented) :
    (exec present s before).client.hostVerifier.mode = s.client.hostVerifier.mode :=
  exec_inv (P := fun t => t.client.hostVerifier.mode = s.client.hostVerifier.mode)
    (fun t p h => (present_mode t p).trans h) rfl before

/-- The server's client accepts every complete host key. -/
theorem gitClient_accepts_iff {cfg : Config} {files : String → TextFile} {before : List Presented}
    {p : Presented} : Accepts (exec present (started (gitClient cfg) files) before) p
      ↔ ∃ keyType keyBytes, p.Presents keyType keyBytes := by
  have hno : (exec present (started (gitClient cfg) files) before).client.hostVerifier.mode = .no :=
    exec_present_mode _ before
  rw [accepts_iff]
  constructor
  · rintro ⟨keyType, keyBytes, hp, -⟩
    exact ⟨keyType, keyBytes, hp⟩
  · rintro ⟨keyType, keyBytes, hp⟩
    exact ⟨keyType, keyBytes, hp, .inl hno⟩

/-- **The policy is enforced** on exactly the certificates it has nothing against: those that
are no complete host key, and those whose key the described verifier trusts. -/
theorem policy_enforced_iff (cfg : Config) (home : Option String) (files : String → TextFile)
    (before : List Presented) (p : Presented) :
    (Accepts (exec present (started (gitClient cfg) files) before) p →
      PolicyAccepts cfg home files before p)
    ↔ ∀ keyType keyBytes, p.Presents keyType keyBytes →
      PolicyTrusts cfg home files before p keyType keyBytes := by
  rw [gitClient_accepts_iff]
  constructor
  · intro h keyType keyBytes hp
    obtain ⟨v, hv, hacc⟩ := h ⟨keyType, keyBytes, hp⟩
    obtain ⟨keyType', keyBytes', hp', htrust⟩ := accepts_iff.mp hacc
    obtain ⟨rfl, rfl⟩ := hp.unique hp'
    exact ⟨v, hv, htrust⟩
  · rintro h ⟨keyType, keyBytes, hp⟩
    obtain ⟨v, hv, htrust⟩ := h keyType keyBytes hp
    exact ⟨v, hv, accepts_iff.mpr ⟨keyType, keyBytes, hp, htrust⟩⟩

end

/-! ## The default policy -/

/-- A host that nothing is known of, since there is no file. -/
def firstContact : Presented :=
  ⟨.hostkey ⟨some [0, 0, 0], some .ed255219⟩, "forge", "ssh://git@forge/shop.git", .ok⟩

theorem firstContact_presents : firstContact.Presents "ssh-ed25519" [0, 0, 0] :=
  ⟨_, .ed255219, rfl, rfl, rfl, rfl⟩

/-- **A host without an entry is accepted** under the default policy. -/
theorem firstContact_accepted : ¬ ∀ (cfg : Config) (home : Option String)
    (files : String → TextFile) (before : List Presented) (p : Presented),
    @Accepts unhashed (@exec _ _ (@present unhashed) (started (gitClient cfg) files) before) p →
    @PolicyAccepts unhashed cfg home files before p := by
  intro h
  obtain ⟨v, hv, hacc⟩ := h {} (some "/root") (fun _ => .missing) [] firstContact
    ((@gitClient_accepts_iff unhashed _ _ _ _).mpr ⟨_, _, firstContact_presents⟩)
  obtain rfl := Except.ok.inj hv
  obtain ⟨_, _, hp, htrust⟩ := (@accepts_iff unhashed _ _).mp hacc
  obtain ⟨rfl, rfl⟩ := hp.unique firstContact_presents
  rcases htrust with hno | hmatch | ⟨hnew, -⟩
  · exact absurd hno (by decide)
  · exact absurd hmatch (by decide)
  · exact absurd hnew (by decide)

end SynchrotronCD.HostKeyPolicy
