import SynchrotronCD.Git.KnownHostsProof

/-!
# Trust on first use

The verifier in the mode `accept-new`, call after call. A key is trusted when its host
and type are met for the first time; what is looked up for a host afterwards is what
has been recorded under its forms.

A host's first key stays its only one as long as no other is recorded under a form the
host is looked up under (`trusted_on_first_use`). It is then that a second key of
another type, or one for the bare name of a host that is known under its port, comes to
stand beside the first.
-/

namespace SynchrotronCD.Git.HostKeys

open Lib

section

variable [Hmac]

/-! ## Calls -/

/-- A key that is presented, and how recording it would go. -/
structure Call where
  host : String
  port : UInt16
  keyType : String
  keyBytes : Bytes
  io : AppendIo
deriving DecidableEq, Repr

structure Session where
  verifier : HostVerifier
  /-- What is on disk under the verifier's path. -/
  file : TextFile
  /-- The calls that have been accepted. -/
  accepted : List Call
deriving DecidableEq, Repr

def start (k : KnownHostsFile) (file : TextFile) : Session := ⟨⟨.acceptNew, k⟩, file, []⟩

def step (s : Session) (c : Call) : Session :=
  let (verifier, file, res) := s.verifier.check s.file c.io c.host c.port c.keyType c.keyBytes
  ⟨verifier, file, match res with
    | .ok () => s.accepted ++ [c]
    | .error _ => s.accepted⟩

/-- The verdict on what is presented. -/
def Session.verdict (s : Session) (c : Call) : VerifyStatus :=
  s.verifier.file.verify c.host c.port c.keyType c.keyBytes

/-- The entry a call adds. -/
def Call.entry (c : Call) : HostEntry := KnownHostsFile.newEntry c.host c.port c.keyType c.keyBytes

/-- The line a call adds. -/
def Call.line (c : Call) : List Char :=
  KnownHostsFile.entryLine c.host c.port c.keyType c.keyBytes ++ ['\n']

/-- The session after an entry has been added in memory. -/
def Session.recorded (s : Session) (c : Call) : Session :=
  { s with
    verifier.file.entries := s.verifier.file.entries ++ [c.entry],
    accepted := s.accepted ++ [c] }

/-- The ways a call can go. -/
theorem step_cases {s : Session} {c : Call} (hmode : s.verifier.mode = .acceptNew) :
    (s.verdict c = .match ∧ step s c = { s with accepted := s.accepted ++ [c] })
    ∨ (s.verdict c = .mismatch ∧ step s c = s)
    ∨ (s.verdict c = .unknown ∧ s.verifier.file.path = "" ∧ step s c = s.recorded c)
    ∨ (s.verdict c = .unknown ∧ s.verifier.file.path ≠ "" ∧ c.io = .ok
        ∧ step s c = { s.recorded c with file := s.file.append c.line })
    ∨ (s.verdict c = .unknown ∧ s.verifier.file.path ≠ "" ∧ (∃ e, c.io = .openFailed e)
        ∧ step s c = s)
    ∨ (s.verdict c = .unknown ∧ s.verifier.file.path ≠ ""
        ∧ ∃ n, (∃ e, c.io = .writeFailed n e)
          ∧ step s c = { s with file := s.file.append (c.line.take n) }) := by
  obtain ⟨⟨mode, k⟩, file, accepted⟩ := s
  obtain rfl : mode = .acceptNew := hmode
  unfold Session.verdict step HostVerifier.check
  rw [if_neg (by simp)]
  cases hv : k.verify c.host c.port c.keyType c.keyBytes with
  | «match» => simp
  | mismatch => simp
  | unknown =>
      simp only [if_true, KnownHostsFile.append]
      by_cases hpath : k.path = ""
      · simp [hpath, Session.recorded, Call.entry]
      · rw [if_neg hpath]
        cases hio : c.io with
        | ok => simp [hpath, Session.recorded, Call.entry, Call.line]
        | openFailed source => simp [hpath]
        | writeFailed n source => simp [hpath, Call.line]

/-! ## What is looked up for a host -/

/-- The entry is looked up for the host. -/
def LookedUp (e : HostEntry) (host : String) (port : UInt16) : Prop :=
  patternMatches e.pattern (hostLookupForms host port) = true

/-- No entry matches the host's name. -/
def Unlisted (k : KnownHostsFile) (host : String) (port : UInt16) : Prop :=
  ∀ e ∈ k.entries, ¬ LookedUp e host port

theorem lookedUp_newEntry {c : Call} {host : String} {port : UInt16} :
    LookedUp c.entry host port ↔ canonicalHostForm c.host c.port ∈ hostLookupForms host port := by
  simp [LookedUp, Call.entry, KnownHostsFile.newEntry, patternMatches]

omit [Hmac] in
/-- A host is looked up under the form it is recorded under. -/
theorem canonicalHostForm_mem (host : String) (port : UInt16) :
    canonicalHostForm host port ∈ hostLookupForms host port := by
  unfold canonicalHostForm hostLookupForms
  split <;> simp_all

omit [Hmac] in
theorem decode_entry (c : Call) : Base64.decode c.entry.keyB64.toList = some c.keyBytes := by
  simp [Call.entry, KnownHostsFile.newEntry, Base64.decode_encode]

/-- What a call adds lists its key. -/
theorem entry_lists (c : Call) : c.entry.Lists c.host c.port c.keyType c.keyBytes :=
  ⟨⟨lookedUp_newEntry.mpr (canonicalHostForm_mem _ _), rfl⟩, decode_entry c⟩

/-! ## The first key -/

/-- A host that was not listed has one key only. -/
def TrustedOnFirstUse (k : KnownHostsFile) (s : Session) : Prop :=
  ∀ a ∈ s.accepted, ∀ b ∈ s.accepted, a.host = b.host → a.port = b.port →
    Unlisted k a.host a.port → a.keyBytes = b.keyBytes

/-- If the call is recorded, then for no host that was not listed beside another key. -/
def BesideNoOther (k : KnownHostsFile) (s : Session) (c : Call) : Prop :=
  s.verdict c = .unknown → s.verifier.file.Appends c.io →
    ∀ host port, Unlisted k host port → canonicalHostForm c.host c.port ∈ hostLookupForms host port →
      ∀ e ∈ s.verifier.file.entries, LookedUp e host port →
        Base64.decode e.keyB64.toList = some c.keyBytes

/-- The invariant. -/
structure Remembers (k : KnownHostsFile) (s : Session) : Prop where
  mode : s.verifier.mode = .acceptNew
  /-- What is looked up for a host that was not listed is one key. -/
  one : ∀ host port, Unlisted k host port → ∀ e ∈ s.verifier.file.entries,
    ∀ e' ∈ s.verifier.file.entries, LookedUp e host port → LookedUp e' host port →
      Base64.decode e.keyB64.toList = Base64.decode e'.keyB64.toList
  decodes : ∀ host port, Unlisted k host port → ∀ e ∈ s.verifier.file.entries,
    LookedUp e host port → ∃ keyBytes, Base64.decode e.keyB64.toList = some keyBytes
  /-- What has been accepted is listed. -/
  listed : ∀ a ∈ s.accepted, ∃ e ∈ s.verifier.file.entries,
    e.Lists a.host a.port a.keyType a.keyBytes

theorem remembers_start (k : KnownHostsFile) (file : TextFile) : Remembers k (start k file) where
  mode := rfl
  one _ _ hun e he _ _ hl := absurd hl (hun e he)
  decodes _ _ hun e he hl := absurd hl (hun e he)
  listed _ ha := absurd ha List.not_mem_nil

/-- Only the entries and what has been accepted are looked at. -/
theorem Remembers.congr {k : KnownHostsFile} {s t : Session} (h : Remembers k s)
    (hv : t.verifier = s.verifier) (ha : t.accepted = s.accepted) : Remembers k t := by
  refine ⟨by rw [hv]; exact h.mode, ?_, ?_, ?_⟩
  · rw [hv]
    exact h.one
  · rw [hv]
    exact h.decodes
  · rw [hv, ha]
    exact h.listed

/-- Another listed key is accepted. -/
theorem Remembers.accept {k : KnownHostsFile} {s : Session} (h : Remembers k s) {c : Call}
    (hc : ∃ e ∈ s.verifier.file.entries, e.Lists c.host c.port c.keyType c.keyBytes) :
    Remembers k { s with accepted := s.accepted ++ [c] } := by
  refine ⟨h.mode, h.one, h.decodes, fun a ha => ?_⟩
  rcases List.mem_append.mp ha with ha | ha
  · exact h.listed a ha
  · obtain rfl := List.mem_singleton.mp ha
    exact hc

/-- A key is recorded: this is where a second one could come in. -/
theorem Remembers.record {k : KnownHostsFile} {s : Session} (h : Remembers k s) {c : Call}
    (hc : ∀ host port, Unlisted k host port → LookedUp c.entry host port →
      ∀ e ∈ s.verifier.file.entries, LookedUp e host port →
        Base64.decode e.keyB64.toList = some c.keyBytes) :
    Remembers k (s.recorded c) := by
  have hone : Remembers k { s with
      verifier.file.entries := s.verifier.file.entries ++ [c.entry] } := by
    refine ⟨h.mode, fun host port hun e he e' he' hl hl' => ?_, fun host port hun e he hl => ?_,
      fun a ha => ?_⟩
    · rcases List.mem_append.mp he with he | he
      · rcases List.mem_append.mp he' with he' | he'
        · exact h.one host port hun e he e' he' hl hl'
        · obtain rfl := List.mem_singleton.mp he'
          rw [decode_entry, hc host port hun hl' e he hl]
      · obtain rfl := List.mem_singleton.mp he
        rcases List.mem_append.mp he' with he' | he'
        · rw [decode_entry, hc host port hun hl e' he' hl']
        · obtain rfl := List.mem_singleton.mp he'
          rfl
    · rcases List.mem_append.mp he with he | he
      · exact h.decodes host port hun e he hl
      · obtain rfl := List.mem_singleton.mp he
        exact ⟨c.keyBytes, decode_entry c⟩
    · obtain ⟨e, he, hl⟩ := h.listed a ha
      exact ⟨e, List.mem_append_left _ he, hl⟩
  exact hone.accept ⟨c.entry, by simp, entry_lists c⟩

theorem remembers_step {k : KnownHostsFile} {s : Session} {c : Call} (h : Remembers k s)
    (hc : BesideNoOther k s c) : Remembers k (step s c) := by
  have hrecord : s.verdict c = .unknown → s.verifier.file.Appends c.io →
      Remembers k (s.recorded c) := by
    intro hv hio
    refine h.record fun host port hun hl => ?_
    exact hc hv hio host port hun (lookedUp_newEntry.mp hl)
  rcases step_cases (c := c) h.mode with ⟨hv, hs⟩ | ⟨-, hs⟩ | ⟨hv, hpath, hs⟩ | ⟨hv, -, hio, hs⟩ |
    ⟨-, -, -, hs⟩ | ⟨-, -, n, -, hs⟩
  · rw [hs]
    exact h.accept (KnownHostsFile.verify_eq_match.mp hv)
  · rw [hs]
    exact h
  · rw [hs]
    exact hrecord hv (.inl hpath)
  · rw [hs]
    exact (hrecord hv (.inr hio)).congr rfl rfl
  · rw [hs]
    exact h
  · rw [hs]
    exact h.congr rfl rfl

theorem Remembers.trusted {k : KnownHostsFile} {s : Session} (h : Remembers k s) :
    TrustedOnFirstUse k s := by
  intro a ha b hb hhost hport hun
  obtain ⟨e, he, hl⟩ := h.listed a ha
  obtain ⟨e', he', hl'⟩ := h.listed b hb
  have hlook' : LookedUp e' a.host a.port := by
    rw [hhost, hport]
    exact hl'.1.1
  have hone := h.one a.host a.port hun e he e' he' hl.1.1 hlook'
  exact Option.some.inj (hl.2.symm.trans (hone.trans hl'.2))

/-- **Trust on first use.** A host that was not listed keeps its first key, in every run that
records no other key where it is looked up for that host. -/
theorem trusted_on_first_use (k : KnownHostsFile) (file : TextFile) {calls : List Call}
    (h : Each step (BesideNoOther k) (start k file) calls) :
    Always step (TrustedOnFirstUse k) (start k file) calls := by
  intro pre hpre
  exact (exec_inv_of_each (fun s c => remembers_step) (remembers_start k file)
    (h.of_prefix hpre)).trusted

/-! ## A second key -/

/-- What is listed is accepted, and nothing else changes. -/
theorem step_of_lists {s : Session} {c : Call} (hmode : s.verifier.mode = .acceptNew)
    (hc : ∃ e ∈ s.verifier.file.entries, e.Lists c.host c.port c.keyType c.keyBytes) :
    step s c = { s with accepted := s.accepted ++ [c] } := by
  have hv : s.verdict c = .match := KnownHostsFile.verify_eq_match.mpr hc
  rcases step_cases (c := c) hmode with ⟨-, hs⟩ | ⟨hv', -⟩ | ⟨hv', -⟩ | ⟨hv', -⟩ | ⟨hv', -⟩ |
    ⟨hv', -⟩
  · exact hs
  all_goals exact absurd (hv.symm.trans hv') (by decide)

/-- The entries and the mode after a key has been recorded. -/
theorem step_of_unknown {s : Session} {c : Call} (hmode : s.verifier.mode = .acceptNew)
    (hv : s.verdict c = .unknown) (hio : s.verifier.file.Appends c.io) :
    (step s c).verifier = (s.recorded c).verifier := by
  rcases step_cases (c := c) hmode with ⟨hv', -⟩ | ⟨hv', -⟩ | ⟨-, -, hs⟩ | ⟨-, -, -, hs⟩ |
    ⟨-, hpath, ⟨e, he⟩, -⟩ | ⟨-, hpath, n, ⟨e, he⟩, -⟩
  · exact absurd (hv.symm.trans hv') (by decide)
  · exact absurd (hv.symm.trans hv') (by decide)
  · rw [hs]
  · rw [hs]
  · rcases hio with hio | hio
    · exact absurd hio hpath
    · exact absurd (hio.symm.trans he) (by simp)
  · rcases hio with hio | hio
    · exact absurd hio hpath
    · exact absurd (hio.symm.trans he) (by simp)

/-- Once a key has been recorded beside another one of some host, the host may present
either of them. -/
theorem second_key_accepted {k : KnownHostsFile} {s : Session} (h : Remembers k s) {c : Call}
    (hc : ¬ BesideNoOther k s c) :
    ∃ a b : Call, ¬ TrustedOnFirstUse k (step (step (step s c) a) b) := by
  unfold BesideNoOther at hc
  push Not at hc
  obtain ⟨hv, hio, host, port, hun, hform, e, he, hl, hne⟩ := hc
  obtain ⟨keyBytes, hd⟩ := h.decodes host port hun e he hl
  have hver : (step s c).verifier = (s.recorded c).verifier := step_of_unknown h.mode hv hio
  have hmode : (step s c).verifier.mode = .acceptNew := by
    rw [hver]
    exact h.mode
  have hentries : (step s c).verifier.file.entries = s.verifier.file.entries ++ [c.entry] := by
    rw [hver]
    rfl
  refine ⟨⟨host, port, e.keyType, keyBytes, .ok⟩, ⟨host, port, c.keyType, c.keyBytes, .ok⟩, ?_⟩
  rw [step_of_lists hmode (c := ⟨host, port, e.keyType, keyBytes, .ok⟩)
      ⟨e, by rw [hentries]; exact List.mem_append_left _ he, ⟨hl, rfl⟩, hd⟩,
    step_of_lists (by exact hmode) (c := ⟨host, port, c.keyType, c.keyBytes, .ok⟩)
      ⟨c.entry, by simp [hentries], ⟨lookedUp_newEntry.mpr hform, rfl⟩, decode_entry c⟩]
  intro htrust
  have heq := htrust ⟨host, port, e.keyType, keyBytes, .ok⟩ (by simp)
    ⟨host, port, c.keyType, c.keyBytes, .ok⟩ (by simp) rfl rfl hun
  exact hne (by rw [hd]; exact congrArg some heq)

end

/-! ## The forge's keys -/

def noHosts : KnownHostsFile := ⟨"/known_hosts", []⟩

def forgeCall : Call := ⟨"forge", 22, "ssh-ed25519", [1], .ok⟩

/-- The forge again, with a key of another type. -/
def otherTypeCall : Call := ⟨"forge", 22, "ssh-rsa", [2], .ok⟩

theorem forge_trusted : @Always _ _ (@step unhashed) (@TrustedOnFirstUse unhashed noHosts)
    (start noHosts .missing) [forgeCall, forgeCall] := by
  refine @trusted_on_first_use unhashed noHosts .missing _ ?_
  rw [each_cons, each_cons]
  refine ⟨fun _ _ _ _ _ _ e he => absurd he List.not_mem_nil, fun hv => ?_, each_nil⟩
  exact absurd hv (by decide)

/-- **A second key of another type is accepted** for a host that was not listed. -/
theorem other_type_accepted : ¬ ∀ (path : String) (file : TextFile) (k : KnownHostsFile)
    (calls : List Call), KnownHostsFile.load path file = .ok k →
    @Always _ _ (@step unhashed) (@TrustedOnFirstUse unhashed k) (start k file) calls := by
  intro h
  have htrust := (h "/known_hosts" .missing noHosts [forgeCall, otherTypeCall] rfl).final
  have heq := htrust forgeCall (by decide) otherTypeCall (by decide) rfl rfl
    (fun e he => absurd he List.not_mem_nil)
  exact absurd heq (by decide)

end SynchrotronCD.Git.HostKeys
