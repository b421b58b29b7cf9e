import SynchrotronCD.Git.KnownHosts
import SynchrotronCD.Lib.Runs

/-!
# What is accepted, and what is remembered

The verdict about a key is read off the entries that name its host, port and type
(`verify_eq_match`, `verify_eq_unknown`), in whatever order they stand. From there it
is a matter of which entries there are: those of marked lines too
(`revoked_never_accepted_iff`), and those that have been appended.
-/

namespace SynchrotronCD.Git

open Lib

section

variable [Hmac]

/-! ## Verdicts -/

/-- The entry is for the host, under one of its forms, and the key type. -/
def HostEntry.Names (e : HostEntry) (host : String) (port : UInt16) (keyType : String) : Prop :=
  patternMatches e.pattern (hostLookupForms host port) = true ∧ e.keyType = keyType

/-- The entry records the key for the host. -/
def HostEntry.Lists (e : HostEntry) (host : String) (port : UInt16) (keyType : String)
    (keyBytes : Bytes) : Prop :=
  e.Names host port keyType ∧ Base64.decode e.keyB64.toList = some keyBytes

namespace KnownHostsFile

variable {host : String} {port : UInt16} {keyType : String} {keyBytes : Bytes}

/-- What the scan finds from some entry on. -/
theorem verifyFrom_spec (found : Bool) (es : List HostEntry) :
    (verifyFrom (hostLookupForms host port) keyType keyBytes found es = .match
      ↔ ∃ e ∈ es, e.Lists host port keyType keyBytes)
    ∧ (verifyFrom (hostLookupForms host port) keyType keyBytes found es = .unknown
      ↔ found = false ∧ ∀ e ∈ es, ¬ e.Names host port keyType) := by
  induction es generalizing found with
  | nil => cases found <;> simp [verifyFrom]
  | cons e es ih =>
      simp only [List.exists_mem_cons_iff, List.forall_mem_cons]
      by_cases hn : e.Names host port keyType
      · have hskip : ¬ ((!patternMatches e.pattern (hostLookupForms host port)
            || decide (e.keyType ≠ keyType)) = true) := by
          simp [hn.1, hn.2]
        rw [verifyFrom, if_neg hskip]
        cases hd : Base64.decode e.keyB64.toList with
        | none =>
            have hl : ¬ e.Lists host port keyType keyBytes := fun h =>
              Option.some_ne_none _ (h.2.symm.trans hd)
            dsimp only
            rw [(ih true).1, (ih true).2]
            simp [hl, hn]
        | some stored =>
            dsimp only
            by_cases hs : stored = keyBytes
            · have hl : e.Lists host port keyType keyBytes := ⟨hn, by rw [hd, hs]⟩
              rw [if_pos hs]
              simp [hl, hn]
            · have hl : ¬ e.Lists host port keyType keyBytes := fun h =>
                hs (Option.some.inj (hd.symm.trans h.2))
              rw [if_neg hs, (ih true).1, (ih true).2]
              simp [hl, hn]
      · have hskip : (!patternMatches e.pattern (hostLookupForms host port)
            || decide (e.keyType ≠ keyType)) = true := by
          by_contra h
          exact hn (by simpa [HostEntry.Names] using h)
        have hl : ¬ e.Lists host port keyType keyBytes := fun h => hn h.1
        rw [verifyFrom, if_pos hskip, (ih found).1, (ih found).2]
        simp [hl, hn]

/-- **A key matches exactly if an entry lists it.** -/
theorem verify_eq_match {k : KnownHostsFile} : k.verify host port keyType keyBytes = .match
    ↔ ∃ e ∈ k.entries, e.Lists host port keyType keyBytes := (verifyFrom_spec false k.entries).1

/-- A key is unknown exactly if no entry is for its host and type. -/
theorem verify_eq_unknown {k : KnownHostsFile} : k.verify host port keyType keyBytes = .unknown
    ↔ ∀ e ∈ k.entries, ¬ e.Names host port keyType := by
  rw [verify, (verifyFrom_spec false k.entries).2]
  simp

end KnownHostsFile

/-- Whether an append goes through; without a file there is nothing to fail. -/
def KnownHostsFile.Appends (k : KnownHostsFile) (io : AppendIo) : Prop := k.path = "" ∨ io = .ok

namespace HostVerifier

/-- **What is accepted**: in the mode `no` everything; else what matches, and in the mode
`accept-new` what is unknown and can be recorded. -/
theorem check_ok (v : HostVerifier) (file : TextFile) (io : AppendIo) (host : String)
    (port : UInt16) (keyType : String) (keyBytes : Bytes) :
    (v.check file io host port keyType keyBytes).2.2 = .ok ()
      ↔ v.mode = .no ∨ v.file.verify host port keyType keyBytes = .match
        ∨ (v.mode = .acceptNew ∧ v.file.verify host port keyType keyBytes = .unknown
          ∧ v.file.Appends io) := by
  unfold check
  by_cases hno : v.mode = .no
  · simp [hno]
  rw [if_neg hno]
  cases hv : v.file.verify host port keyType keyBytes with
  | «match» => simp
  | mismatch => simp [hno]
  | unknown =>
      dsimp only
      by_cases hnew : v.mode = .acceptNew
      · rw [if_pos hnew]
        unfold KnownHostsFile.append KnownHostsFile.Appends
        dsimp only
        by_cases hpath : v.file.path = ""
        · simp [hpath, hnew]
        · rw [if_neg hpath]
          cases io with
          | ok => simp [hnew]
          | openFailed source => simp [hno, hpath]
          | writeFailed n source => simp [hno, hpath]
      · simp [hno, hnew]

theorem check_mode (v : HostVerifier) (file : TextFile) (io : AppendIo) (host : String)
    (port : UInt16) (keyType : String) (keyBytes : Bytes) :
    (v.check file io host port keyType keyBytes).1.mode = v.mode := by
  unfold check
  split
  · rfl
  · split <;> try rfl
    split <;> rfl

end HostVerifier

/-! ## Markers -/

/-- The marker of a line, such as `@revoked`. -/
def marker (line : List Char) : Option (List Char) :=
  (words isWhitespace (trim line)).head?.filter fun w => w.head? = some '@'

/-- The line lists the key for the host. -/
def LineLists (line : List Char) (host : String) (port : UInt16) (keyType : String)
    (keyBytes : Bytes) : Prop :=
  ∃ e, parseLine line = some e ∧ e.Lists host port keyType keyBytes

/-- The line is for the host and the key type. -/
def LineNames (line : List Char) (host : String) (port : UInt16) (keyType : String) : Prop :=
  ∃ e, parseLine line = some e ∧ e.Names host port keyType

/-- Some line with one of these markers lists the key. -/
def ListedUnder (markers : Option (List Char) → Prop) (content : List Char) (host : String)
    (port : UInt16) (keyType : String) (keyBytes : Bytes) : Prop :=
  ∃ line ∈ bufLines content, markers (marker line) ∧ LineLists line host port keyType keyBytes

def Revoked (m : Option (List Char)) : Prop := m = some "@revoked".toList

def CertAuthority (m : Option (List Char)) : Prop := m = some "@cert-authority".toList

variable {path : String} {content : List Char} {k : KnownHostsFile} {host : String} {port : UInt16}
  {keyType : String} {keyBytes : Bytes}

omit [Hmac] in
/-- The entries of a file that has been loaded, line by line. -/
theorem exists_mem_load (hk : KnownHostsFile.load path (.text content) = .ok k)
    {P : HostEntry → Prop} :
    (∃ e ∈ k.entries, P e) ↔ ∃ line ∈ bufLines content, ∃ e, parseLine line = some e ∧ P e := by
  obtain rfl := Except.ok.inj hk
  constructor
  · rintro ⟨e, he, hP⟩
    obtain ⟨line, hline, hparse⟩ := List.mem_filterMap.mp he
    exact ⟨line, hline, e, hparse, hP⟩
  · rintro ⟨line, hline, e, hparse, hP⟩
    exact ⟨e, List.mem_filterMap.mpr ⟨line, hline, hparse⟩, hP⟩

theorem load_verify_eq_match (hk : KnownHostsFile.load path (.text content) = .ok k) :
    k.verify host port keyType keyBytes = .match
      ↔ ∃ line ∈ bufLines content, LineLists line host port keyType keyBytes :=
  KnownHostsFile.verify_eq_match.trans (exists_mem_load hk)

theorem load_verify_eq_unknown (hk : KnownHostsFile.load path (.text content) = .ok k) :
    k.verify host port keyType keyBytes = .unknown
      ↔ ¬ ∃ line ∈ bufLines content, LineNames line host port keyType := by
  have hex := exists_mem_load (P := fun e => e.Names host port keyType) hk
  rw [KnownHostsFile.verify_eq_unknown]
  unfold LineNames
  rw [← hex]
  simp

/-- **Markers make no difference.** A key matches if a line lists it, marked or not, and is
accepted then or on first contact. So a revoked key is kept out, and what signs certificates is
not taken for a host key, only where no line says otherwise. -/
theorem markers_ignored (hk : KnownHostsFile.load path (.text content) = .ok k)
    {mode : HostKeyMode} (hmode : mode ≠ .no) (file : TextFile) (io : AppendIo) (host : String)
    (port : UInt16) (keyType : String) (keyBytes : Bytes) :
    (k.verify host port keyType keyBytes = .match
      ↔ ∃ line ∈ bufLines content, LineLists line host port keyType keyBytes)
    ∧ ((HostVerifier.check ⟨mode, k⟩ file io host port keyType keyBytes).2.2 = .ok ()
      ↔ (∃ line ∈ bufLines content, LineLists line host port keyType keyBytes)
        ∨ (mode = .acceptNew ∧ (¬ ∃ line ∈ bufLines content, LineNames line host port keyType)
          ∧ k.Appends io))
    ∧ (((HostVerifier.check ⟨mode, k⟩ file io host port keyType keyBytes).2.2 = .ok () →
          ¬ ListedUnder Revoked content host port keyType keyBytes)
        ∧ (k.verify host port keyType keyBytes = .match →
          ListedUnder (fun m => ¬ Revoked m ∧ ¬ CertAuthority m) content host port keyType keyBytes)
      ↔ ¬ ListedUnder Revoked content host port keyType keyBytes
        ∧ (ListedUnder CertAuthority content host port keyType keyBytes →
          ListedUnder (fun m => ¬ Revoked m ∧ ¬ CertAuthority m) content host port keyType
            keyBytes)) := by
  have hmatch : k.verify host port keyType keyBytes = .match
      ↔ ∃ line ∈ bufLines content, LineLists line host port keyType keyBytes :=
    load_verify_eq_match hk
  have hok := HostVerifier.check_ok ⟨mode, k⟩ file io host port keyType keyBytes
  have hlisted : ∀ {markers}, ListedUnder markers content host port keyType keyBytes →
      ∃ line ∈ bufLines content, LineLists line host port keyType keyBytes := by
    rintro markers ⟨line, hline, -, hl⟩
    exact ⟨line, hline, hl⟩
  refine ⟨hmatch, ?_, ?_, ?_⟩
  · rw [hok, hmatch, load_verify_eq_unknown hk]
    simp only [hmode, false_or]
  · rintro ⟨haccept, hmarked⟩
    refine ⟨fun hr => ?_, fun hc => hmarked (hmatch.mpr (hlisted hc))⟩
    -- a revoked key matches its own line
    exact haccept (hok.mpr (.inr (.inl (hmatch.mpr (hlisted hr))))) hr
  · rintro ⟨hr, hc⟩
    refine ⟨fun _ => hr, fun hm => ?_⟩
    obtain ⟨line, hline, hl⟩ := hmatch.mp hm
    by_cases hca : CertAuthority (marker line)
    · exact hc ⟨line, hline, hca, hl⟩
    · exact ⟨line, hline, ⟨fun h => hr ⟨line, hline, h, hl⟩, hca⟩, hl⟩

end

/-! ## A revoked key -/

/-- No host name is hashed here. -/
@[reducible] def unhashed : Hmac := ⟨fun _ _ => [], fun _ _ => []⟩

def revokedLine : List Char := "@revoked forge ssh-ed25519 AAAA".toList

def forgeEntry : HostEntry := ⟨.plain ["forge"], "ssh-ed25519", "AAAA"⟩

theorem parse_revokedLine : parseLine revokedLine = some forgeEntry := by decide

theorem revokedLine_lists : @LineLists unhashed revokedLine "forge" 22 "ssh-ed25519" [0, 0, 0] :=
  ⟨forgeEntry, parse_revokedLine, ⟨by decide, rfl⟩, by decide⟩

theorem forge_load : KnownHostsFile.load "/known_hosts" (.text revokedLine)
    = .ok ⟨"/known_hosts", [forgeEntry]⟩ := by decide

theorem revoked_markers_ignored :
    let k : KnownHostsFile := ⟨"/known_hosts", [forgeEntry]⟩
    let checked := (@HostVerifier.check unhashed ⟨.acceptNew, k⟩ .missing .ok "forge" 22 "ssh-ed25519"
      [0, 0, 0]).2.2
    let verified := @KnownHostsFile.verify unhashed k "forge" 22 "ssh-ed25519" [0, 0, 0]
    let listed := fun markers =>
      @ListedUnder unhashed markers revokedLine "forge" 22 "ssh-ed25519" [0, 0, 0]
    (verified = .match
      ↔ ∃ line ∈ bufLines revokedLine, @LineLists unhashed line "forge" 22 "ssh-ed25519" [0, 0, 0])
    ∧ (checked = .ok ()
      ↔ (∃ line ∈ bufLines revokedLine, @LineLists unhashed line "forge" 22 "ssh-ed25519" [0, 0, 0])
        ∨ (HostKeyMode.acceptNew = .acceptNew
          ∧ (¬ ∃ line ∈ bufLines revokedLine, @LineNames unhashed line "forge" 22 "ssh-ed25519")
          ∧ k.Appends .ok))
    ∧ ((checked = .ok () → ¬ listed Revoked)
        ∧ (verified = .match → listed (fun m => ¬ Revoked m ∧ ¬ CertAuthority m))
      ↔ ¬ listed Revoked
        ∧ (listed CertAuthority → listed (fun m => ¬ Revoked m ∧ ¬ CertAuthority m))) :=
  @markers_ignored unhashed _ _ _ forge_load .acceptNew (by decide) .missing .ok "forge" 22 "ssh-ed25519"
    [0, 0, 0]

/-- **A key that the file revokes is accepted**, even in the strict mode. -/
theorem revoked_key_accepted : ¬ ∀ (path : String) (content : List Char) (k : KnownHostsFile)
    (mode : HostKeyMode) (file : TextFile) (io : AppendIo) (host : String) (port : UInt16)
    (keyType : String) (keyBytes : Bytes), KnownHostsFile.load path (.text content) = .ok k →
    mode ≠ .no →
    ((@HostVerifier.check unhashed ⟨mode, k⟩ file io host port keyType keyBytes).2.2 = .ok () →
      ¬ @ListedUnder unhashed Revoked content host port keyType keyBytes)
    ∧ (@KnownHostsFile.verify unhashed k host port keyType keyBytes = .match →
      @ListedUnder unhashed (fun m => ¬ Revoked m ∧ ¬ CertAuthority m) content host port keyType
        keyBytes) := by
  intro h
  have hrevoked : @ListedUnder unhashed Revoked revokedLine "forge" 22 "ssh-ed25519" [0, 0, 0] :=
    ⟨revokedLine, by decide, (by decide : marker revokedLine = some "@revoked".toList),
      revokedLine_lists⟩
  have hkept := (h "/known_hosts" revokedLine _ .yes .missing .ok "forge" 22 "ssh-ed25519" [0, 0, 0]
    forge_load (by decide)).1
  exact hkept (by decide) hrevoked

end SynchrotronCD.Git
