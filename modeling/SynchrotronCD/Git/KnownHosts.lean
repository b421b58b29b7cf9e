import SynchrotronCD.Git.Webhooks
import SynchrotronCD.Lib.Base64
import SynchrotronCD.Lib.Text
import SynchrotronCD.Reconcile.Wave

/-!
# Host keys

OpenSSH `known_hosts` files and the verification of host keys: the file is read line
by line into entries, a presented key is looked up by host, port and type, and in the
mode `accept-new` a key of which nothing is known is appended to the file and to the
entries in memory.

A file is a text, or is not there, or cannot be read as text. What the system makes of
a write is an argument of the operation that writes.
-/

namespace SynchrotronCD.Git

open Lib

/-! ## Types -/

/-- What to do when the server's host key isn't in `known_hosts`. -/
inductive HostKeyMode where
  /-- Reject unknown hosts. -/
  | yes
  /-- Identical to `yes`. -/
  | ask
  /-- Append the key to `known_hosts` on first contact. -/
  | acceptNew
  /-- Skip verification entirely. -/
  | no
deriving DecidableEq, Repr

inductive VerifyStatus where
  /-- Host, key type and key bytes all match an entry. -/
  | match
  /-- No entry for this host and key type. -/
  | unknown
  /-- An entry exists for this host and key type, but the key bytes don't match. -/
  | mismatch
deriving DecidableEq, Repr

inductive HostPattern where
  /-- Hostnames, which may be of the form `[host]:port`. -/
  | plain (entries : List String)
  /-- The hash of a single hostname. -/
  | hashed (salt hash : Bytes)
deriving DecidableEq, Repr

structure HostEntry where
  pattern : HostPattern
  keyType : String
  keyB64 : String
deriving DecidableEq, Repr

/-- What there is on disk under a path. -/
inductive TextFile where
  | missing
  | text (content : List Char)
  /-- It cannot be opened, or is no text. -/
  | unreadable (source : String)
deriving DecidableEq, Repr

/-- How an append goes. -/
inductive AppendIo where
  | ok
  | openFailed (source : String)
  /-- It fails after the first `n` characters have been written. -/
  | writeFailed (n : Nat) (source : String)
deriving DecidableEq, Repr

def TextFile.append : TextFile → List Char → TextFile
  | .missing, line => .text line
  | .text content, line => .text (content ++ line)
  | .unreadable source, _ => .unreadable source

/-! ## Parsing -/

/-- The lines of a reader, without their terminators. -/
def bufLines (content : List Char) : List (List Char) :=
  (terminated '\n' [] content).map (fun l => if l.getLast? = some '\r' then l.dropLast else l)
    ++ (if unterminated '\n' [] content = [] then [] else [unterminated '\n' [] content])

def isKnownKeyType (s : String) : Bool :=
  s ∈ ["ssh-rsa", "ssh-dss", "ssh-ed25519", "ssh-ed448", "ecdsa-sha2-nistp256",
    "ecdsa-sha2-nistp384", "ecdsa-sha2-nistp521", "sk-ecdsa-sha2-nistp256@openssh.com",
    "sk-ssh-ed25519@openssh.com"]

/-- The host token: a hashed name, or a list of names. -/
def parsePattern (first : List Char) : Option HostPattern :=
  if "|1|".toList <+: first then
    match (first.drop 3).splitOn '|' with
    | salt :: hash :: _ => do return .hashed (← Base64.decode salt) (← Base64.decode hash)
    | _ => none
  else some (.plain ((first.splitOn ',').map String.ofList))

/-- The entry of a line, from its words after an optional marker. -/
def parseWords : List (List Char) → Option HostEntry
  | first :: keyType :: keyB64 :: _ =>
    if isKnownKeyType (String.ofList keyType) then
      match parsePattern first, Base64.decode keyB64 with
      | some pattern, some (_ :: _) => some ⟨pattern, String.ofList keyType, String.ofList keyB64⟩
      | _, _ => none
    else none
  | _ => none

/-- Try to parse one line; markers are skipped. -/
def parseLine (line : List Char) : Option HostEntry :=
  let trimmed := trim line
  if trimmed.isEmpty || trimmed.head? == some '#' then none
  else
    match words isWhitespace trimmed with
    | first :: rest => if first.head? = some '@' then parseWords rest else parseWords (first :: rest)
    | [] => none

/-! ## Matching -/

/-- Forms a host could appear under. -/
def hostLookupForms (host : String) (port : UInt16) : List String :=
  host :: if port ≠ 22 then ["[" ++ host ++ "]:" ++ toString port.toNat] else []

/-- Form to write back when appending a new entry. -/
def canonicalHostForm (host : String) (port : UInt16) : String :=
  if port = 22 then host else "[" ++ host ++ "]:" ++ toString port.toNat

section

variable [Hmac]

def patternMatches (pattern : HostPattern) (hostForms : List String) : Bool :=
  match pattern with
  | .plain entries => entries.any fun p => hostForms.any fun h => h == p
  | .hashed salt hash =>
    hostForms.any fun h => Hmac.sha1 salt h.toUTF8.data.toList == hash

end

/-! ## The file -/

structure KnownHostsFile where
  /-- Empty for one that is only in memory. -/
  path : String
  entries : List HostEntry
deriving DecidableEq, Repr

namespace KnownHostsFile

/-- A missing file is treated as an empty database. -/
def load (path : String) (file : TextFile) : Except GitError KnownHostsFile :=
  match file with
  | .missing => .ok ⟨path, []⟩
  | .text content => .ok ⟨path, (bufLines content).filterMap parseLine⟩
  | .unreadable source => .error (.io path source)

def empty : KnownHostsFile := ⟨"", []⟩

section

variable [Hmac]

/-- The entries from some point on; `found` if one before was for the host and the key type. -/
def verifyFrom (hostForms : List String) (keyType : String) (keyBytes : Bytes) :
    Bool → List HostEntry → VerifyStatus
  | found, [] => if found then .mismatch else .unknown
  | found, entry :: rest =>
    if !patternMatches entry.pattern hostForms || entry.keyType ≠ keyType then
      verifyFrom hostForms keyType keyBytes found rest
    else
      match Base64.decode entry.keyB64.toList with
      | none => verifyFrom hostForms keyType keyBytes true rest
      | some stored =>
        if stored = keyBytes then .match else verifyFrom hostForms keyType keyBytes true rest

/-- Verify a host key. -/
def verify (k : KnownHostsFile) (host : String) (port : UInt16) (keyType : String)
    (keyBytes : Bytes) : VerifyStatus :=
  verifyFrom (hostLookupForms host port) keyType keyBytes false k.entries

end

/-- The line of a new entry, without its terminator. -/
def entryLine (host : String) (port : UInt16) (keyType : String) (keyBytes : Bytes) : List Char :=
  (canonicalHostForm host port).toList
    ++ ' ' :: (keyType.toList ++ ' ' :: Base64.encode keyBytes)

/-- The new entry. -/
def newEntry (host : String) (port : UInt16) (keyType : String) (keyBytes : Bytes) : HostEntry :=
  ⟨.plain [canonicalHostForm host port], keyType, String.ofList (Base64.encode keyBytes)⟩

/-- Append a new entry, to the file if there is one and then in memory. -/
def append (k : KnownHostsFile) (file : TextFile) (io : AppendIo) (host : String) (port : UInt16)
    (keyType : String) (keyBytes : Bytes) : KnownHostsFile × TextFile × Except GitError Unit :=
  let line := entryLine host port keyType keyBytes ++ ['\n']
  let pushed : KnownHostsFile :=
    { k with entries := k.entries ++ [newEntry host port keyType keyBytes] }
  if k.path = "" then (pushed, file, .ok ())
  else
    match io with
    | .ok => (pushed, file.append line, .ok ())
    | .openFailed source => (k, file, .error (.io k.path source))
    | .writeFailed n source => (k, file.append (line.take n), .error (.io k.path source))

end KnownHostsFile

/-! ## The verifier -/

structure HostVerifier where
  mode : HostKeyMode
  file : KnownHostsFile
deriving DecidableEq, Repr

namespace HostVerifier

/-- Disable verification. -/
def insecure : HostVerifier := ⟨.no, .empty⟩

variable [Hmac]

/-- Decide what to do about a key; `file` is what is on disk under the verifier's path. -/
def check (v : HostVerifier) (file : TextFile) (io : AppendIo) (host : String) (port : UInt16)
    (keyType : String) (keyBytes : Bytes) : HostVerifier × TextFile × Except GitError Unit :=
  if v.mode = .no then (v, file, .ok ())
  else
    match v.file.verify host port keyType keyBytes with
    | .match => (v, file, .ok ())
    | .mismatch => (v, file, .error (.hostKeyMismatch host keyType))
    | .unknown =>
      if v.mode = .acceptNew then
        let (k, file, res) := v.file.append file io host port keyType keyBytes
        ({ v with file := k }, file, res)
      else (v, file, .error (.unknownHostKey host keyType))

end HostVerifier

end SynchrotronCD.Git
