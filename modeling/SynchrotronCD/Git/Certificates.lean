import SynchrotronCD.Git.KnownHostsProof

/-!
# The certificate check

What libgit2 asks the client about the certificate of a server. A host key goes to the
client's verifier, with the port of the repository's URL, which libgit2 leaves out of
the host it hands over.

The verifier is behind a mutex; nothing that is done with it panics, so the mutex is
never poisoned.
-/

namespace SynchrotronCD.Git

open Lib

/-! ## Ports -/

/-- `str::split_once` for a pattern of several characters: the first occurrence. -/
def splitOnceAt (pat : List Char) : List Char → Option (List Char × List Char)
  | [] => none
  | c :: cs =>
    if pat <+: c :: cs then some ([], (c :: cs).drop pat.length)
    else (splitOnceAt pat cs).map fun (l, r) => (c :: l, r)

/-- `str::rsplit_once`: the last occurrence. -/
def rsplitOnce (sep : Char) (cs : List Char) : Option (List Char × List Char) :=
  if sep ∈ cs then
    some ((((cs.reverse.dropWhile (· ≠ sep)).drop 1).reverse),
      (cs.reverse.takeWhile (· ≠ sep)).reverse)
  else none

/-- `str::parse::<u16>`: an optional plus sign and digits, within range. -/
def parseU16 (cs : List Char) : Option UInt16 :=
  let n : Option Nat := match cs with
    | '+' :: ds => digits ds
    | ds => digits ds
  (n.filter fun n => decide (n < 65536)).map UInt16.ofNat

/-- The port of `ssh://[user@]host[:port]/path`. -/
def sshPortFromUrl (url : String) : Option UInt16 := do
  let rest ← stripPrefix "ssh://" url
  let authority := rest.toList.takeWhile (· ≠ '/')
  let hostPort := ((rsplitOnce '@' authority).map Prod.snd).getD authority
  -- an IPv6 literal
  match hostPort with
  | '[' :: rest =>
    let (_, p) ← splitOnceAt "]:".toList rest
    parseU16 p
  | _ =>
    let (_, p) ← rsplitOnce ':' hostPort
    parseU16 p

def splitHostPort (host : String) : String × UInt16 :=
  let bracketed : Option (String × UInt16) := do
    let rest ← stripPrefix "[" host
    let (h, p) ← splitOnceAt "]:".toList rest.toList
    return (String.ofList h, ← parseU16 p)
  let plain : Option (String × UInt16) := do
    let (h, p) ← rsplitOnce ':' host.toList
    return (String.ofList h, ← parseU16 p)
  (bracketed <|> plain).getD (host, 22)

/-! ## Certificates -/

inductive SshHostKeyType where
  | unknown
  | rsa
  | dss
  | ecdsa256
  | ecdsa384
  | ecdsa521
  | ed255219
deriving DecidableEq, Repr

def hostkeyTypeStr : SshHostKeyType → String
  | .rsa => "ssh-rsa"
  | .dss => "ssh-dss"
  | .ecdsa256 => "ecdsa-sha2-nistp256"
  | .ecdsa384 => "ecdsa-sha2-nistp384"
  | .ecdsa521 => "ecdsa-sha2-nistp521"
  | .ed255219 => "ssh-ed25519"
  | .unknown => "ssh-unknown"

/-- A host key as libgit2 presents it. -/
structure CertHostkey where
  hostkey : Option Bytes
  hostkeyType : Option SshHostKeyType
deriving DecidableEq, Repr

inductive Cert where
  | hostkey (key : CertHostkey)
  /-- HTTPS or unknown. -/
  | other
deriving DecidableEq, Repr

inductive CertificateCheckStatus where
  | certificateOk
  | certificatePassthrough
deriving DecidableEq, Repr

/-! ## The client -/

/-- A git client; the working directories are left out. -/
structure GitClient where
  hostVerifier : HostVerifier
deriving DecidableEq, Repr

/-- Create a client with verification disabled. -/
def GitClient.new : GitClient := ⟨.insecure⟩

def GitClient.withHostVerifier (verifier : HostVerifier) : GitClient := ⟨verifier⟩

/-- A certificate that is presented while a repository is cloned or fetched, and how
recording its key would go. -/
structure Presented where
  cert : Cert
  host : String
  /-- The URL of the repository. -/
  url : String
  io : AppendIo
deriving DecidableEq, Repr

def Presented.hostname (p : Presented) : String := (splitHostPort p.host).1

/-- The port in the URL is authoritative. -/
def Presented.port (p : Presented) : UInt16 :=
  (sshPortFromUrl p.url).getD (splitHostPort p.host).2

/-- The client and what is on disk under its verifier's path. -/
structure ClientState where
  client : GitClient
  file : TextFile
  /-- The error of the verifier, which libgit2 replaces by its own. -/
  lastVerifierErr : Option GitError
deriving DecidableEq, Repr

variable [Hmac]

/-- libgit2's `certificate_check` hook. -/
def verifyCertificate (s : ClientState) (p : Presented) :
    ClientState × Except String CertificateCheckStatus :=
  match p.cert with
  | .other => (s, .ok .certificatePassthrough)
  | .hostkey key =>
    match key.hostkey with
    | none => (s, .error "SSH host presented no key bytes; refusing to trust")
    | some keyBytes =>
      match key.hostkeyType with
      | none => (s, .error "SSH host key type unknown; refusing to trust")
      | some t =>
        let (verifier, file, res) :=
          s.client.hostVerifier.check s.file p.io p.hostname p.port (hostkeyTypeStr t) keyBytes
        match res with
        | .ok () => ({ s with client := ⟨verifier⟩, file }, .ok .certificateOk)
        | .error e =>
          (⟨⟨verifier⟩, file, some e⟩,
            .error ("SSH host key verification failed for " ++ p.hostname))

/-- The client after a certificate has been presented. -/
def present (s : ClientState) (p : Presented) : ClientState := (verifyCertificate s p).1

/-- The host key that is presented is accepted. -/
def Accepts (s : ClientState) (p : Presented) : Prop :=
  (verifyCertificate s p).2 = .ok .certificateOk

/-- The certificate is a host key, complete with its type and bytes. -/
def Presented.Presents (p : Presented) (keyType : String) (keyBytes : Bytes) : Prop :=
  ∃ key t, p.cert = .hostkey key ∧ key.hostkey = some keyBytes ∧ key.hostkeyType = some t
    ∧ hostkeyTypeStr t = keyType

omit [Hmac] in
theorem Presented.Presents.unique {p : Presented} {keyType keyType' : String}
    {keyBytes keyBytes' : Bytes} (h : p.Presents keyType keyBytes)
    (h' : p.Presents keyType' keyBytes') : keyType = keyType' ∧ keyBytes = keyBytes' := by
  obtain ⟨key, t, hcert, hbytes, htype, rfl⟩ := h
  obtain ⟨key', t', hcert', hbytes', htype', rfl⟩ := h'
  obtain rfl := Cert.hostkey.inj (hcert.symm.trans hcert')
  obtain rfl := Option.some.inj (htype.symm.trans htype')
  exact ⟨rfl, Option.some.inj (hbytes.symm.trans hbytes')⟩

/-- What the verifier of a client accepts, as far as it knows so far. -/
def Trusts (v : HostVerifier) (p : Presented) (keyType : String) (keyBytes : Bytes) : Prop :=
  v.mode = .no ∨ v.file.verify p.hostname p.port keyType keyBytes = .match
    ∨ (v.mode = .acceptNew ∧ v.file.verify p.hostname p.port keyType keyBytes = .unknown
      ∧ v.file.Appends p.io)

/-- **A host key is accepted** if it is complete and the verifier trusts it. -/
theorem accepts_iff {s : ClientState} {p : Presented} :
    Accepts s p ↔ ∃ keyType keyBytes, p.Presents keyType keyBytes
      ∧ Trusts s.client.hostVerifier p keyType keyBytes := by
  unfold Accepts verifyCertificate
  cases hcert : p.cert with
  | other => simp [Presented.Presents, hcert]
  | hostkey key =>
      dsimp only
      cases hbytes : key.hostkey with
      | none => simp [Presented.Presents, hcert, hbytes]
      | some keyBytes =>
          cases htype : key.hostkeyType with
          | none => simp [Presented.Presents, hcert, htype]
          | some t =>
              have hok := s.client.hostVerifier.check_ok s.file p.io p.hostname p.port
                (hostkeyTypeStr t) keyBytes
              dsimp only
              constructor
              · intro h
                refine ⟨hostkeyTypeStr t, keyBytes, ⟨key, t, hcert, hbytes, htype, rfl⟩, hok.mp ?_⟩
                split at h
                · assumption
                · simp at h
              · rintro ⟨_, _, hp, htrust⟩
                have hpresents : p.Presents (hostkeyTypeStr t) keyBytes :=
                  ⟨key, t, hcert, hbytes, htype, rfl⟩
                obtain ⟨rfl, rfl⟩ := hp.unique hpresents
                rw [hok.mpr htrust]

/-- Nothing changes the mode of a verifier. -/
theorem present_mode (s : ClientState) (p : Presented) :
    (present s p).client.hostVerifier.mode = s.client.hostVerifier.mode := by
  unfold present verifyCertificate
  split
  · rfl
  split
  · rfl
  split
  · rfl
  dsimp only
  split <;> exact HostVerifier.check_mode _ _ _ _ _ _ _

end SynchrotronCD.Git
