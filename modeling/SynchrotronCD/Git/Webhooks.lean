import SynchrotronCD.Git.Client
import SynchrotronCD.Plugins.Value

/-!
# Webhook parsing and verification

What a forge sends is verified against a shared secret and then read for two
things: the name of the event and the URL of the repository. The MACs and the JSON
parser are other crates'.
-/

namespace SynchrotronCD.Git

open Lib

abbrev Bytes := List UInt8

/-- The keyed hashes that payloads are signed with: the secret, then the body. -/
class Hmac where
  sha256 : Bytes → Bytes → Bytes
  sha1 : Bytes → Bytes → Bytes

/-- `serde_json::from_slice`. -/
class SerdeJson where
  fromSlice : Bytes → Except String Value.Doc

inductive WebhookProvider where
  | gitHub
  | gitLab
  | bitbucket
deriving DecidableEq, Repr

/-- Parsed webhook: what the handler needs to route to a trigger. -/
structure ParsedWebhook where
  provider : WebhookProvider
  /-- Repo URL as reported by the provider. -/
  repoUrl : String
  event : String
deriving DecidableEq, Repr

/-- Whether this payload corresponds to a git push. -/
def ParsedWebhook.isPush (w : ParsedWebhook) : Bool :=
  match w.provider with
  | .gitHub => w.event == "push"
  | .gitLab => w.event == "Push Hook"
  | .bitbucket => w.event == "repo:push"

abbrev Headers := List (String × String)

/-- Look up a header case-insensitively. -/
def header (headers : Headers) (name : String) : Option String :=
  (headers.find? fun h => h.1.toList.map Char.toLower = name.toList.map Char.toLower).map Prod.snd

/-! ## Hexadecimal signatures -/

inductive FromHexError where
  | invalidHexCharacter (c : Char) (index : Nat)
  | oddLength
deriving DecidableEq, Repr

/-- How a character of a header is shown. -/
def debugChar (c : Char) : List Char :=
  if c = '\t' then ['\\', 't'] else if c.toNat = 39 ∨ c = '\\' then ['\\', c] else [c]

def FromHexError.toText : FromHexError → String
  | .invalidHexCharacter c index =>
    "Invalid character '" ++ String.ofList (debugChar c) ++ "' at position " ++ toString index
  | .oddLength => "Odd number of digits"

def hexVal (c : Char) (index : Nat) : Except FromHexError Nat :=
  if 'A' ≤ c ∧ c ≤ 'F' then .ok (c.toNat - 55)
  else if 'a' ≤ c ∧ c ≤ 'f' then .ok (c.toNat - 87)
  else if '0' ≤ c ∧ c ≤ '9' then .ok (c.toNat - 48)
  else .error (.invalidHexCharacter c index)

def hexPairs (index : Nat) : List Char → Except FromHexError Bytes
  | hi :: lo :: rest => do
    let h ← hexVal hi index
    let l ← hexVal lo (index + 1)
    return UInt8.ofNat (16 * h + l) :: (← hexPairs (index + 2) rest)
  | _ => .ok []

/-- `hex::decode`. -/
def hexDecode (s : String) : Except FromHexError Bytes :=
  if s.toList.length % 2 = 1 then .error .oddLength else hexPairs 0 s.toList

/-! ## Verification -/

/-- Decode a signature and compare it with the MAC. -/
def verifySlice (mac : Bytes) (hexSig : String) : Except GitError Unit :=
  match hexDecode hexSig with
  | .error e => .error (.invalidState ("malformed signature hex: " ++ e.toText))
  | .ok sig => if mac = sig then .ok () else .error (.invalidState "signature mismatch")

/-- What follows a prefix, if it is there. -/
def stripPrefix (pre s : String) : Option String :=
  if pre.toList <+: s.toList then some (String.ofList (s.toList.drop pre.toList.length)) else none

section

variable [Hmac]

/-- Verify a GitHub signature (`X-Hub-Signature-256`). -/
def verifyGithub (secret : Bytes) (headers : Headers) (body : Bytes) : Except GitError Unit :=
  match header headers "X-Hub-Signature-256" with
  | none => .error (.invalidState "missing X-Hub-Signature-256")
  | some sig =>
    match stripPrefix "sha256=" sig with
    | none => .error (.invalidState "unexpected signature prefix")
    | some hexSig => verifySlice (Hmac.sha256 secret body) hexSig

/-- Verify a GitLab webhook: a shared token in plaintext. -/
def verifyGitlab (secret : Bytes) (headers : Headers) : Except GitError Unit :=
  match header headers "X-Gitlab-Token" with
  | none => .error (.invalidState "missing X-Gitlab-Token")
  | some token =>
    if token.toUTF8.data.toList = secret then .ok ()
    else .error (.invalidState "signature mismatch")

/-- Verify a Bitbucket webhook: either hash is accepted. -/
def verifyBitbucket (secret : Bytes) (headers : Headers) (body : Bytes) : Except GitError Unit :=
  match header headers "X-Hub-Signature" with
  | none => .error (.invalidState "missing X-Hub-Signature for Bitbucket webhook")
  | some sig =>
    match stripPrefix "sha256=" sig with
    | some hexSig => verifySlice (Hmac.sha256 secret body) hexSig
    | none =>
      match stripPrefix "sha1=" sig with
      | some hexSig => verifySlice (Hmac.sha1 secret body) hexSig
      | none => .error (.invalidState "unexpected Bitbucket signature prefix")

end

/-! ## Parsing -/

/-- `json.get(key)`; the keys of a parsed object are unique. -/
def getKey (key : String) : Value.Doc → Option Value.Doc
  | .obj kvs => (kvs.find? fun kv => kv.1 = key).map Prod.snd
  | _ => none

def asStr : Value.Doc → Option String
  | .str s => some s
  | _ => none

def asArray : Value.Doc → Option (List Value.Doc)
  | .arr xs => some xs
  | _ => none

/-- The value at a path of keys. -/
def getPath : List String → Value.Doc → Option Value.Doc
  | [], json => some json
  | key :: keys, json => (getKey key json).bind (getPath keys)

/-- The URL in a GitHub payload. -/
def githubUrl (json : Value.Doc) : Option String :=
  (getPath ["repository", "clone_url"] json).bind asStr

/-- The URL in a GitLab payload: of the repository, else of the project. -/
def gitlabUrl (json : Value.Doc) : Option String :=
  ((getPath ["repository", "git_http_url"] json).bind asStr).or
    ((getPath ["project", "git_http_url"] json).bind asStr)

/-- The `href` of a clone link over HTTP. -/
def cloneHref (entry : Value.Doc) : Option String :=
  match (getKey "name" entry).bind asStr with
  | none => none
  | some name =>
    if name = "https" ∨ name = "http" then (getKey "href" entry).bind asStr else none

/-- The URL in a Bitbucket payload: the clone link of Cloud, else the link of Server. -/
def bitbucketUrl (json : Value.Doc) : Option String :=
  (((getPath ["repository", "links", "clone"] json).bind asArray).bind (·.findSome? cloneHref)).or
    (((((getPath ["repository", "links", "self"] json).bind asArray).bind List.head?).bind
      (getKey "href")).bind asStr)

section

variable [SerdeJson]

/-- The event is named in a header, the URL in the body. -/
def parseWebhook (provider : WebhookProvider) (eventHeader missingEvent : String)
    (url : Value.Doc → Option String) (missingUrl : String) (headers : Headers) (body : Bytes) :
    Except GitError ParsedWebhook :=
  match header headers eventHeader with
  | none => .error (.invalidState missingEvent)
  | some event =>
    match SerdeJson.fromSlice body with
    | .error e => .error (.invalidState ("malformed JSON: " ++ e))
    | .ok json =>
      match url json with
      | none => .error (.invalidState missingUrl)
      | some url => .ok ⟨provider, url, event⟩

def parseGithub (headers : Headers) (body : Bytes) : Except GitError ParsedWebhook :=
  parseWebhook .gitHub "X-GitHub-Event" "missing X-GitHub-Event" githubUrl
    "missing repository.clone_url" headers body

def parseGitlab (headers : Headers) (body : Bytes) : Except GitError ParsedWebhook :=
  parseWebhook .gitLab "X-Gitlab-Event" "missing X-Gitlab-Event" gitlabUrl "missing git_http_url"
    headers body

def parseBitbucket (headers : Headers) (body : Bytes) : Except GitError ParsedWebhook :=
  parseWebhook .bitbucket "X-Event-Key" "missing X-Event-Key" bitbucketUrl
    "could not extract Bitbucket clone URL" headers body

end

/-! ## The text of an identifier -/

theorem hexDigit_ne (n : Nat) (hn : n < 16) (c : Char) (hc : c ∈ [':', '/', '.', '@']) :
    hexDigit n ≠ c := by
  have hall : ∀ k : Fin 16, hexDigit k ∉ [':', '/', '.', '@'] := by decide
  rintro rfl
  exact hall ⟨n, hn⟩ hc

/-- Every character of an encoded text is a digit. -/
theorem mem_hexEncode {bytes : Bytes} {c : Char} (h : c ∈ (hexEncode bytes).toList) :
    ∃ n < 16, c = hexDigit n := by
  unfold hexEncode at h
  rw [String.toList_ofList] at h
  obtain ⟨b, -, hc⟩ := List.mem_flatMap.mp h
  have hb := b.toNat_lt
  rcases List.mem_cons.mp hc with rfl | hc
  · exact ⟨b.toNat / 16, by omega, rfl⟩
  · obtain rfl := List.mem_singleton.mp hc
    exact ⟨b.toNat % 16, by omega, rfl⟩

end SynchrotronCD.Git
