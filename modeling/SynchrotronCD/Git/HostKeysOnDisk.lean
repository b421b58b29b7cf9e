import Mathlib.Data.List.TakeWhile
import SynchrotronCD.Git.HostKeys

/-!
# Host keys on disk

What has been recorded in memory is what the file says when it is loaded again, as long
as an added line is read as the entry it was written for (`memory_and_disk_agree`). The
line is written behind whatever the file ends with, so its last line has to be
terminated; and the host's form has to be one word of the kind that stands for a single
plain name.
-/

namespace SynchrotronCD.Git.HostKeys

open Lib

/-! ## Blanks -/

def Blank (cs : List Char) : Prop := ∀ c ∈ cs, isWhitespace c = true

def NoBlank (cs : List Char) : Prop := ∀ c ∈ cs, isWhitespace c = false

theorem noBlank_of_all {cs : List Char} (h : cs.all (fun c => !isWhitespace c) = true) :
    NoBlank cs := by
  intro c hc
  simpa using List.all_eq_true.mp h c hc

theorem dropWhile_self {cs : List Char} (h : ∀ c ∈ cs.head?, isWhitespace c = false) :
    cs.dropWhile isWhitespace = cs := by
  cases cs with
  | nil => rfl
  | cons c cs => exact List.dropWhile_cons_of_neg (by simp [h c rfl])

theorem trim_blank {cs : List Char} (h : Blank cs) : trim cs = [] := by
  unfold trim
  rw [List.dropWhile_eq_nil_iff.mpr h]
  rfl

theorem trim_between {pre cs post : List Char} (hpre : Blank pre) (hpost : Blank post)
    (hne : cs ≠ []) (hhead : ∀ c ∈ cs.head?, isWhitespace c = false)
    (hlast : ∀ c ∈ cs.getLast?, isWhitespace c = false) : trim (pre ++ (cs ++ post)) = cs := by
  have hleft : (cs ++ post).dropWhile isWhitespace = cs ++ post := by
    refine dropWhile_self ?_
    rw [List.head?_append_of_ne_nil _ hne]
    exact hhead
  have hright : cs.reverse.dropWhile isWhitespace = cs.reverse := by
    refine dropWhile_self ?_
    rw [List.head?_reverse]
    exact hlast
  unfold trim
  rw [List.dropWhile_append_of_pos hpre, hleft, List.reverse_append,
    List.dropWhile_append_of_pos (by simpa [Blank] using hpost), hright, List.reverse_reverse]

/-! ## The line of a new entry -/

/-- The form of a host stands for it, and for it alone: one word, one name, not hashed. -/
structure PlainName (form : List Char) : Prop where
  ne_nil : form ≠ []
  noBlank : NoBlank form
  noComma : ',' ∉ form
  noMarker : form.head? ≠ some '@'
  noComment : form.head? ≠ some '#'
  notHashed : ¬ "|1|".toList <+: form

/-- What the parser takes of an entry. -/
structure ReadsBack (c : Call) : Prop where
  form : PlainName (canonicalHostForm c.host c.port).toList
  keyType : isKnownKeyType c.keyType = true
  key : c.keyBytes ≠ []

/-- Where a line can be added: behind blanks, of which there may be none, and behind a marker. -/
def AtLineStart (last : List Char) : Prop :=
  Blank last ∨ ∃ pre mark c post, last = pre ++ ('@' :: mark ++ c :: post) ∧ Blank pre
    ∧ NoBlank mark ∧ Blank (c :: post)

def Call.words (c : Call) : List (List Char) :=
  [(canonicalHostForm c.host c.port).toList, c.keyType.toList, Base64.encode c.keyBytes]

theorem keyType_noBlank {keyType : String} (h : isKnownKeyType keyType = true) :
    keyType.toList ≠ [] ∧ NoBlank keyType.toList := by
  have hall : ∀ s ∈ ["ssh-rsa", "ssh-dss", "ssh-ed25519", "ssh-ed448", "ecdsa-sha2-nistp256",
      "ecdsa-sha2-nistp384", "ecdsa-sha2-nistp521", "sk-ecdsa-sha2-nistp256@openssh.com",
      "sk-ssh-ed25519@openssh.com"],
      s.toList ≠ [] ∧ s.toList.all (fun c => !isWhitespace c) = true := by decide
  obtain ⟨hne, hnb⟩ := hall keyType (by simpa [isKnownKeyType] using h)
  exact ⟨hne, noBlank_of_all hnb⟩

theorem encode_noBlank (bytes : Bytes) : NoBlank (Base64.encode bytes) := by
  have hall : ∀ n : Fin 64, isWhitespace (Base64.digit n) = false := by decide
  intro c hc
  rcases Base64.mem_encode hc with rfl | ⟨n, hn, rfl⟩
  · rfl
  · exact hall ⟨n, hn⟩

/-- The line has the entry's words. -/
theorem words_entryLine {c : Call} (h : ReadsBack c) :
    words isWhitespace (KnownHostsFile.entryLine c.host c.port c.keyType c.keyBytes) = c.words := by
  obtain ⟨hne, hnb⟩ := keyType_noBlank h.keyType
  unfold KnownHostsFile.entryLine Call.words
  rw [words_append h.form.ne_nil h.form.noBlank (by rfl), words_append hne hnb (by rfl),
    words_singleton (Base64.encode_ne_nil h.key) (encode_noBlank _)]

/-- The words are read as the entry. -/
theorem parseWords_words {c : Call} (h : ReadsBack c) : parseWords c.words = some c.entry := by
  have hpattern : parsePattern (canonicalHostForm c.host c.port).toList
      = some (.plain [canonicalHostForm c.host c.port]) := by
    have hsplit : (canonicalHostForm c.host c.port).toList.splitOn ','
        = [(canonicalHostForm c.host c.port).toList] := by
      rw [List.splitOn_eq_splitOnP]
      refine List.splitOnP_eq_singleton fun x hx => ?_
      by_contra hcomma
      exact h.form.noComma (by simpa using (by simpa using hcomma : x = ',') ▸ hx)
    rw [parsePattern, if_neg h.form.notHashed, hsplit, List.map_singleton, String.ofList_toList]
  obtain ⟨b, bs, hb⟩ := List.exists_cons_of_ne_nil h.key
  have hdecode : Base64.decode (Base64.encode c.keyBytes) = some (b :: bs) := by
    rw [Base64.decode_encode, hb]
  unfold Call.words parseWords
  dsimp only
  rw [String.ofList_toList, if_pos h.keyType, hpattern, hdecode]
  rfl

theorem entryLine_head? {c : Call} (h : ReadsBack c) :
    (KnownHostsFile.entryLine c.host c.port c.keyType c.keyBytes).head?
      = (canonicalHostForm c.host c.port).toList.head? :=
  List.head?_append_of_ne_nil _ h.form.ne_nil

theorem entryLine_getLast? {c : Call} (h : ReadsBack c) :
    (KnownHostsFile.entryLine c.host c.port c.keyType c.keyBytes).getLast?
      = (Base64.encode c.keyBytes).getLast? := by
  have hlast := List.getLast?_eq_some_getLast (Base64.encode_ne_nil h.key)
  unfold KnownHostsFile.entryLine
  simp [List.getLast?_append, List.getLast?_cons, hlast]

theorem parseLine_of_words {line : List Char} {w : List Char} {ws : List (List Char)}
    (hne : trim line ≠ []) (hcomment : (trim line).head? ≠ some '#')
    (hwords : words isWhitespace (trim line) = w :: ws) :
    parseLine line = if w.head? = some '@' then parseWords ws else parseWords (w :: ws) := by
  unfold parseLine
  dsimp only
  rw [if_neg (by simp [hne, hcomment]), hwords]

/-- What a line can start with is no entry. -/
theorem parseLine_lineStart {last : List Char} (h : AtLineStart last) : parseLine last = none := by
  rcases h with hblank | ⟨pre, mark, c, post, rfl, hpre, hmark, hpost⟩
  · simp [parseLine, trim_blank hblank]
  · have hnb : NoBlank ('@' :: mark) := List.forall_mem_cons.mpr ⟨rfl, hmark⟩
    have htrim : trim (pre ++ ('@' :: mark ++ c :: post)) = '@' :: mark :=
      trim_between hpre hpost (List.cons_ne_nil _ _) (fun x hx => hnb x (List.mem_of_head? hx))
        (fun x hx => hnb x (List.mem_of_getLast? hx))
    have hwords : words isWhitespace (trim (pre ++ ('@' :: mark ++ c :: post))) = ['@' :: mark] := by
      rw [htrim, words_singleton (List.cons_ne_nil _ _) hnb]
    rw [parseLine_of_words (by rw [htrim]; simp) (by rw [htrim]; simp) hwords]
    rfl

/-- Behind what a line can start with, the line is read as the entry. -/
theorem parseLine_entryLine {c : Call} (h : ReadsBack c) {last : List Char}
    (hlast : AtLineStart last) :
    parseLine (last ++ KnownHostsFile.entryLine c.host c.port c.keyType c.keyBytes)
      = some c.entry := by
  have hwords := words_entryLine h
  have hhead := entryLine_head? h
  have hend : ∀ x ∈ (KnownHostsFile.entryLine c.host c.port c.keyType c.keyBytes).getLast?,
      isWhitespace x = false := by
    rw [entryLine_getLast? h]
    exact fun x hx => encode_noBlank _ x (List.mem_of_getLast? hx)
  have hne : KnownHostsFile.entryLine c.host c.port c.keyType c.keyBytes ≠ [] :=
    List.append_ne_nil_of_left_ne_nil h.form.ne_nil _
  generalize KnownHostsFile.entryLine c.host c.port c.keyType c.keyBytes = line at *
  rcases hlast with hblank | ⟨pre, mark, b, post, rfl, hpre, hmark, hpost⟩
  · have htrim : trim (last ++ line) = line := by
      have hbetween : trim (last ++ (line ++ [])) = line := trim_between hblank (by simp [Blank]) hne
        (by rw [hhead]; exact fun x hx => h.form.noBlank x (List.mem_of_head? hx)) hend
      rwa [List.append_nil] at hbetween
    rw [parseLine_of_words (by rw [htrim]; exact hne)
      (by rw [htrim, hhead]; exact h.form.noComment) (by rw [htrim, hwords]; rfl),
      if_neg h.form.noMarker]
    exact parseWords_words h
  · -- the marker is a word before those of the entry
    have hnb : NoBlank ('@' :: mark) := List.forall_mem_cons.mpr ⟨rfl, hmark⟩
    have htrim : trim (pre ++ ('@' :: mark ++ b :: post) ++ line)
        = '@' :: mark ++ b :: (post ++ line) := by
      have hlast : ('@' :: mark ++ b :: (post ++ line)).getLast? = line.getLast? := by
        rw [← List.cons_append, ← List.append_assoc, List.getLast?_append_of_ne_nil _ hne]
      have hbetween : trim (pre ++ (('@' :: mark ++ b :: (post ++ line)) ++ []))
          = '@' :: mark ++ b :: (post ++ line) :=
        trim_between hpre (by simp [Blank]) (by simp) (by simp; rfl) (by rw [hlast]; exact hend)
      simpa using hbetween
    have hwords' : words isWhitespace ('@' :: mark ++ b :: (post ++ line))
        = ('@' :: mark) :: c.words := by
      obtain ⟨hb, hblank⟩ := List.forall_mem_cons.mp hpost
      rw [words_append (List.cons_ne_nil _ _) hnb hb, words_separators_append hblank, hwords]
    rw [parseLine_of_words (by rw [htrim]; simp) (by rw [htrim]; simp) (by rw [htrim, hwords']),
      if_pos (show ('@' :: mark).head? = some '@' from rfl)]
    exact parseWords_words h

/-! ## The file -/

def content : TextFile → List Char
  | .text cs => cs
  | _ => []

/-- The last line of a file, if it has not been terminated. -/
def lastLine (file : TextFile) : List Char := unterminated '\n' [] (content file)

/-- The entries of the lines that have been terminated. -/
def lineEntries (cs : List Char) : List HostEntry :=
  ((terminated '\n' [] cs).map (fun l => if l.getLast? = some '\r' then l.dropLast else l)).filterMap
    parseLine

/-- The entries of a text are those of its lines, the last one included. -/
theorem entries_bufLines (cs : List Char) : (bufLines cs).filterMap parseLine
    = lineEntries cs ++ (parseLine (unterminated '\n' [] cs)).toList := by
  have hlast : (if unterminated '\n' [] cs = [] then [] else [unterminated '\n' [] cs]).filterMap
      parseLine = (parseLine (unterminated '\n' [] cs)).toList := by
    split
    · rename_i h
      rw [h]
      rfl
    · rw [List.filterMap_cons, List.filterMap_nil]
      cases parseLine (unterminated '\n' [] cs) <;> rfl
  rw [bufLines, List.filterMap_append, hlast]
  rfl

theorem load_ok {path : String} {file : TextFile} {k : KnownHostsFile} :
    KnownHostsFile.load path file = .ok k ↔ (∀ source, file ≠ .unreadable source)
      ∧ k = ⟨path, lineEntries (content file) ++ (parseLine (lastLine file)).toList⟩ := by
  unfold lastLine
  rw [← entries_bufLines]
  cases file with
  | missing => simp [KnownHostsFile.load, content, bufLines, terminated, unterminated, eq_comm]
  | text cs => simp [KnownHostsFile.load, content, eq_comm]
  | unreadable source => simp [KnownHostsFile.load]

theorem content_append {file : TextFile} (h : ∀ source, file ≠ .unreadable source)
    (cs : List Char) : file.append cs = .text (content file ++ cs) := by
  cases file with
  | missing => rfl
  | text ds => rfl
  | unreadable source => exact absurd rfl (h source)

/-- **A line that is added is read where the last one ends.** -/
theorem load_append_line {path : String} {file : TextFile} {k : KnownHostsFile}
    (h : KnownHostsFile.load path file = .ok k) (hlast : parseLine (lastLine file) = none)
    {line : List Char} (hline : '\n' ∉ line) (hne : line ≠ []) (hcr : line.getLast? ≠ some '\r') :
    KnownHostsFile.load path (file.append (line ++ ['\n']))
      = .ok { k with entries := k.entries ++ (parseLine (lastLine file ++ line)).toList } := by
  obtain ⟨hread, rfl⟩ := load_ok.mp h
  rw [content_append hread, load_ok]
  refine ⟨by simp, ?_⟩
  have hkeep : (lastLine file ++ line).getLast? ≠ some '\r' := by
    rw [List.getLast?_append_of_ne_nil _ hne]
    exact hcr
  have hnone : parseLine (lastLine (.text (content file ++ (line ++ ['\n'])))) = none := by
    unfold lastLine
    rw [content, unterminated_append_line]
    rfl
  have hlines : lineEntries (content file ++ (line ++ ['\n']))
      = lineEntries (content file) ++ (parseLine (lastLine file ++ line)).toList := by
    unfold lineEntries
    rw [terminated_append_line hline, List.map_append, List.filterMap_append, List.map_singleton]
    unfold lastLine at hkeep ⊢
    rw [if_neg hkeep, List.filterMap_cons, List.filterMap_nil]
    cases parseLine (unterminated '\n' [] (content file) ++ line) <;> rfl
  rw [hnone, hlast, content, hlines]
  simp

/-- A part of a line only continues the last one. -/
theorem load_append_part {path : String} {file : TextFile} {k : KnownHostsFile}
    (h : KnownHostsFile.load path file = .ok k) {part : List Char} (hpart : '\n' ∉ part)
    (hsame : parseLine (lastLine file ++ part) = parseLine (lastLine file)) :
    KnownHostsFile.load path (file.append part) = .ok k := by
  obtain ⟨hread, rfl⟩ := load_ok.mp h
  rw [content_append hread, load_ok]
  refine ⟨by simp, ?_⟩
  have hlast : lastLine (.text (content file ++ part)) = lastLine file ++ part := by
    unfold lastLine
    rw [content, unterminated_append, unterminated_of_notMem hpart]
  have hlines : lineEntries (content file ++ part) = lineEntries (content file) := by
    unfold lineEntries
    rw [terminated_append, terminated_of_notMem hpart, List.append_nil]
  rw [hlast, hsame, content, hlines]

/-! ## Memory and disk -/

section

variable [Hmac]

/-- Loaded again, the file says what is known in memory: in every verdict, with all that was
there at first, and with every key that has been accepted. -/
def MemoryAndDiskAgree (k : KnownHostsFile) (s : Session) : Prop :=
  ∃ l, KnownHostsFile.load k.path s.file = .ok l
    ∧ (∀ host port keyType keyBytes, l.verify host port keyType keyBytes
        = s.verifier.file.verify host port keyType keyBytes)
    ∧ k.entries <+: l.entries
    ∧ ∀ a ∈ s.accepted, l.verify a.host a.port a.keyType a.keyBytes = .match

/-- If the call is recorded, its line is read back, and what is left of a line that could not
be written is not. -/
def ReadBackOrUnread (s : Session) (c : Call) : Prop :=
  s.verdict c = .unknown → s.verifier.file.path ≠ "" ∧
    match c.io with
    | .ok => ReadsBack c ∧ AtLineStart (lastLine s.file)
    | .openFailed _ => True
    | .writeFailed n _ => '\n' ∉ c.line.take n
      ∧ parseLine (lastLine s.file ++ c.line.take n) = parseLine (lastLine s.file)

/-- The invariant: what is in memory is exactly what would be loaded. -/
structure OnDisk (k : KnownHostsFile) (s : Session) : Prop where
  mode : s.verifier.mode = .acceptNew
  path : s.verifier.file.path = k.path
  loads : KnownHostsFile.load k.path s.file = .ok s.verifier.file
  kept : k.entries <+: s.verifier.file.entries
  listed : ∀ a ∈ s.accepted, ∃ e ∈ s.verifier.file.entries,
    e.Lists a.host a.port a.keyType a.keyBytes

theorem onDisk_start {path : String} {k : KnownHostsFile} {file : TextFile}
    (h : KnownHostsFile.load path file = .ok k) : OnDisk k (start k file) := by
  obtain ⟨-, hk⟩ := load_ok.mp h
  have hpath : k.path = path := by rw [hk]
  refine ⟨rfl, rfl, ?_, List.prefix_refl _, fun a ha => absurd ha List.not_mem_nil⟩
  rw [hpath]
  exact h

theorem OnDisk.accept {k : KnownHostsFile} {s : Session} (h : OnDisk k s) {c : Call}
    (hc : ∃ e ∈ s.verifier.file.entries, e.Lists c.host c.port c.keyType c.keyBytes) :
    OnDisk k { s with accepted := s.accepted ++ [c] } := by
  refine ⟨h.mode, h.path, h.loads, h.kept, fun a ha => ?_⟩
  rcases List.mem_append.mp ha with ha | ha
  · exact h.listed a ha
  · obtain rfl := List.mem_singleton.mp ha
    exact hc

/-- The line of a new entry is read as what has been added in memory. -/
theorem OnDisk.record {k : KnownHostsFile} {s : Session} (h : OnDisk k s) {c : Call}
    (hc : ReadsBack c) (hlast : AtLineStart (lastLine s.file)) :
    OnDisk k { s.recorded c with file := s.file.append c.line } := by
  have hnb : NoBlank (Base64.encode c.keyBytes) := encode_noBlank _
  have hnewline : '\n' ∉ KnownHostsFile.entryLine c.host c.port c.keyType c.keyBytes := by
    unfold KnownHostsFile.entryLine
    intro hmem
    have hkt := (keyType_noBlank hc.keyType).2
    simp only [List.mem_append, List.mem_cons] at hmem
    rcases hmem with hmem | hmem | hmem | hmem | hmem
    · exact absurd (hc.form.noBlank _ hmem) (by decide)
    · exact absurd hmem (by decide)
    · exact absurd (hkt _ hmem) (by decide)
    · exact absurd hmem (by decide)
    · exact absurd (hnb _ hmem) (by decide)
  have hcr : (KnownHostsFile.entryLine c.host c.port c.keyType c.keyBytes).getLast?
      ≠ some '\r' := by
    rw [entryLine_getLast? hc]
    intro heq
    exact absurd (hnb _ (List.mem_of_getLast? heq)) (by decide)
  have hload := load_append_line h.loads (parseLine_lineStart hlast) hnewline
    (List.append_ne_nil_of_left_ne_nil hc.form.ne_nil _) hcr
  rw [parseLine_entryLine hc hlast] at hload
  have hadded : OnDisk k { s with
      verifier.file.entries := s.verifier.file.entries ++ [c.entry],
      file := s.file.append c.line } := by
    refine ⟨h.mode, h.path, hload, h.kept.trans (List.prefix_append _ _), fun a ha => ?_⟩
    obtain ⟨e, he, hl⟩ := h.listed a ha
    exact ⟨e, List.mem_append_left _ he, hl⟩
  exact hadded.accept ⟨c.entry, by simp, entry_lists c⟩

theorem onDisk_step {k : KnownHostsFile} {s : Session} {c : Call} (h : OnDisk k s)
    (hc : ReadBackOrUnread s c) : OnDisk k (step s c) := by
  rcases step_cases (c := c) h.mode with ⟨hv, hs⟩ | ⟨-, hs⟩ | ⟨hv, hpath, -⟩ | ⟨hv, -, hio, hs⟩ |
    ⟨-, -, -, hs⟩ | ⟨hv, -, n, ⟨e, hio⟩, hs⟩
  · rw [hs]
    exact h.accept (KnownHostsFile.verify_eq_match.mp hv)
  · rw [hs]
    exact h
  · exact absurd hpath (hc hv).1
  · have hread := (hc hv).2
    rw [hio] at hread
    rw [hs]
    exact h.record hread.1 hread.2
  · rw [hs]
    exact h
  · -- the rest of a line is left behind the last one
    have hunread := (hc hv).2
    rw [hio] at hunread
    rw [hs]
    exact ⟨h.mode, h.path, load_append_part h.loads hunread.1 hunread.2, h.kept, h.listed⟩

theorem OnDisk.agree {k : KnownHostsFile} {s : Session} (h : OnDisk k s) :
    MemoryAndDiskAgree k s :=
  ⟨s.verifier.file, h.loads, fun _ _ _ _ => rfl, h.kept,
    fun a ha => KnownHostsFile.verify_eq_match.mpr (h.listed a ha)⟩

/-- **Memory and disk agree** after every call of a run whose added lines are read back. -/
theorem memory_and_disk_agree {path : String} {file : TextFile} {k : KnownHostsFile}
    (hload : KnownHostsFile.load path file = .ok k) {calls : List Call}
    (h : Each step ReadBackOrUnread (start k file) calls) :
    Always step (MemoryAndDiskAgree k) (start k file) calls := by
  intro pre hpre
  exact (exec_inv_of_each (fun s c => onDisk_step) (onDisk_start hload) (h.of_prefix hpre)).agree

end

/-! ## A file without a last newline -/

/-- A comment that has not been terminated. -/
def comment : List Char := "# forges".toList

theorem forge_readsBack : ReadsBack forgeCall where
  form := ⟨by decide, noBlank_of_all (by decide), by decide, by decide, by decide, by decide⟩
  keyType := by decide
  key := by decide

theorem forge_agrees : @Always _ _ (@step unhashed) (@MemoryAndDiskAgree unhashed noHosts)
    (start noHosts .missing) [forgeCall] := by
  refine @memory_and_disk_agree unhashed "/known_hosts" .missing noHosts rfl _ ?_
  rw [each_cons]
  exact ⟨fun _ => ⟨by decide, forge_readsBack, .inl fun _ hc => absurd hc List.not_mem_nil⟩,
    each_nil⟩

/-- **The key is lost** with the next load: its line continues the comment. -/
theorem forge_lost : ¬ ∀ (path : String) (file : TextFile) (k : KnownHostsFile) (calls : List Call),
    KnownHostsFile.load path file = .ok k →
    @Always _ _ (@step unhashed) (@MemoryAndDiskAgree unhashed k) (start k file) calls := by
  intro h
  obtain ⟨l, hl, hverdict, -⟩ :=
    (h "/known_hosts" (.text comment) noHosts [forgeCall] (by decide)).final
  have hl' : KnownHostsFile.load "/known_hosts" (.text (comment ++ forgeCall.line)) = .ok noHosts := by
    decide
  obtain rfl := Except.ok.inj (hl.symm.trans hl')
  exact absurd (hverdict "forge" 22 "ssh-ed25519" [1]) (by decide)

end SynchrotronCD.Git.HostKeys
