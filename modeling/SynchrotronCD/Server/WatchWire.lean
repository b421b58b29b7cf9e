import SynchrotronCD.Cli.Sse
import SynchrotronCD.Git.HostForms
import SynchrotronCD.Server.WatchProof

/-!
# The watch stream on the wire

The server writes each event as three fields and a blank line, and a comment every
so often to keep the connection open; the command line client reads them back. A
connection can break anywhere: what the client prints then are the first so many
events, each as it was sent, and none in part (`watch_prints_events`).

A client that comes back asks for what follows the last id it printed. Of what the
ring still holds, it is given exactly what it has not printed (`resume_exact`).
-/

namespace SynchrotronCD.Watch

open Lib Sse

/-- What the server's libraries write: a field of an event, a comment, and the JSON text of a
payload. -/
structure Wire where
  field : List Char → List Char → List Char
  comment : List Char → List Char
  json : Payload → List Char

/-- The format of an event stream. A field is a line of its own, and the space after the colon
is there if the value begins with one. JSON text is on one line: control characters are escaped
in strings. -/
structure Wire.EventSource (w : Wire) : Prop where
  field : ∀ name value, '\n' ∉ value → '\r' ∉ value →
    w.field name value = name ++ ':' :: ' ' :: value ++ ['\n'] ∨
    (value.head? ≠ some ' ' ∧ w.field name value = name ++ ':' :: value ++ ['\n'])
  comment : ∀ text, '\n' ∉ text → '\r' ∉ text → ∃ pad, '\n' ∉ pad ∧ '\r' ∉ pad ∧
    w.comment text = ':' :: (pad ++ text ++ ['\n'])
  json : ∀ p, w.json p ≠ [] ∧ '\n' ∉ w.json p ∧ '\r' ∉ w.json p

/-- `u64::to_string`. -/
def idText (id : Nat) : List Char := Nat.toDigits 10 id

def toSse (w : Wire) (evt : AppWatchEvent) : List Char :=
  w.field ['i', 'd'] (idText evt.id) ++ w.field ['e', 'v', 'e', 'n', 't'] evt.kind.toList
    ++ w.field ['d', 'a', 't', 'a'] (w.json evt.payload) ++ ['\n']

/-- What the server writes: an event, or what keeps the connection open. -/
inductive Item where
  | event (evt : AppWatchEvent)
  | keepAlive

def Item.text (w : Wire) : Item → List Char
  | .event evt => toSse w evt
  | .keepAlive => w.comment ['k', 'e', 'e', 'p', 'a', 'l', 'i', 'v', 'e'] ++ ['\n']

def Item.evt : Item → Option AppWatchEvent
  | .event evt => some evt
  | .keepAlive => none

/-- The message a client is to read for an event. -/
def message (w : Wire) (evt : AppWatchEvent) : SseMessage :=
  ⟨some evt.kind.toList, some (idText evt.id), w.json evt.payload⟩

/-- The kinds of event there are. -/
def Kind (evt : AppWatchEvent) : Prop :=
  evt.kind ∈ ["sync_requested", "app_changed", "sync_outcome", "health"]

instance (evt : AppWatchEvent) : Decidable (Kind evt) :=
  inferInstanceAs (Decidable (_ ∈ _))

theorem hexDigit_mem (n : Nat) : Json.hexDigit n ∈ "0123456789abcdef".toList := by
  unfold Json.hexDigit
  cases h : (['0', '1', '2', '3', '4', '5', '6', '7', '8', '9', 'a', 'b', 'c', 'd', 'e', 'f'] :
      List Char)[n]? with
  | none => decide
  | some c => exact List.mem_of_getElem? h

/-- An escaped character ends no line. -/
theorem notMem_escape {c : Char} (hc : c.toNat = 10 ∨ c.toNat = 13) (d : Char) :
    c ∉ Json.escape d := by
  have hplain : ∀ x, x.toNat ≠ 10 → x.toNat ≠ 13 → c ≠ x := by
    rintro x h h' rfl
    omega
  have hhex : ∀ n, c ≠ Json.hexDigit n := fun n => by
    have hall : ∀ x ∈ "0123456789abcdef".toList, x.toNat ≠ 10 ∧ x.toNat ≠ 13 := by simp
    exact hplain _ (hall _ (hexDigit_mem n)).1 (hall _ (hexDigit_mem n)).2
  fun_cases Json.escape d <;> simp only [List.mem_cons, List.not_mem_nil, or_false, not_or]
  all_goals first
    | exact ⟨hplain _ (by decide) (by decide), hplain _ (by decide) (by decide)⟩
    | exact ⟨hplain _ (by decide) (by decide), hplain _ (by decide) (by decide),
        hplain _ (by decide) (by decide), hplain _ (by decide) (by decide), hhex _, hhex _⟩
    | exact hplain _ ‹_› ‹_›

/-- A string literal is on one line. -/
theorem notMem_quote {c : Char} (hc : c.toNat = 10 ∨ c.toNat = 13) (s : String) :
    c ∉ Json.quote s := by
  have hquote : c ≠ '"' := by
    rintro rfl
    revert hc
    decide
  rw [Json.quote, List.mem_cons, List.mem_append, List.mem_singleton, List.mem_flatMap]
  rintro (h | ⟨d, -, h⟩ | h)
  · exact hquote h
  · exact notMem_escape hc d h
  · exact hquote h

/-- The text of a payload, for the kinds that only have names. -/
def plainJson : Payload → List Char
  | .syncRequested app => '{' :: (Json.quote "app" ++ ':' :: (Json.quote app ++ ['}']))
  | .appChanged app repo =>
    '{' :: (Json.quote "app" ++ ':' :: (Json.quote app ++ ',' :: (Json.quote "repo" ++ ':' ::
      (Json.quote repo ++ ['}']))))
  | _ => ['{', '}']

/-- A wire that writes every field with a space. -/
def plainWire : Wire where
  field name value := name ++ ':' :: ' ' :: value ++ ['\n']
  comment text := ':' :: (text ++ ['\n'])
  json := plainJson

theorem plainWire_eventSource : plainWire.EventSource where
  field := fun name value _ _ => .inl rfl
  comment := fun text _ _ => ⟨[], by simp, by simp, rfl⟩
  json := by
    intro p
    cases p <;> simp [plainWire, plainJson, notMem_quote, (by decide : '\n'.toNat = 10)]

/-! ## Lines -/

theorem trimEnd_eq {line : List Char} (h : '\r' ∉ line) : trimEnd line = line := by
  unfold trimEnd
  rw [List.rdropWhile_eq_self_iff]
  intro hne hlast
  have hmem := List.getLast_mem hne
  rw [beq_iff_eq] at hlast
  rw [hlast] at hmem
  exact h hmem

theorem lines_line {line : List Char} (h : '\n' ∉ line) (rest : List Char) :
    lines [] (line ++ '\n' :: rest) = trimEnd line :: lines [] rest := by
  rw [lines_append h, lines_cons_newline]

/-- The name and the value of a line that is a field. -/
theorem splitField_space {name : List Char} (h : ':' ∉ name) (value : List Char) :
    splitField (name ++ ':' :: ' ' :: value) = (name, value) := by
  have hname : ∀ c ∈ name, (c != ':') = true := fun c hc =>
    bne_iff_ne.mpr fun he => h (he ▸ hc)
  unfold splitField
  rw [List.dropWhile_append_of_pos hname, List.takeWhile_append_of_pos hname,
    List.dropWhile_cons_of_neg (by decide), List.takeWhile_cons_of_neg (by decide)]
  simp

theorem splitField_bare {name value : List Char} (h : ':' ∉ name)
    (hv : value.head? ≠ some ' ') : splitField (name ++ ':' :: value) = (name, value) := by
  have hname : ∀ c ∈ name, (c != ':') = true := fun c hc =>
    bne_iff_ne.mpr fun he => h (he ▸ hc)
  unfold splitField
  rw [List.dropWhile_append_of_pos hname, List.takeWhile_append_of_pos hname,
    List.dropWhile_cons_of_neg (by decide), List.takeWhile_cons_of_neg (by decide)]
  cases value with
  | nil => simp
  | cons c cs =>
      have hc : c ≠ ' ' := fun he => hv (by rw [he]; rfl)
      simp only [List.append_nil]
      split
      · rename_i heq; cases heq
      · rename_i heq; cases heq; exact absurd rfl hc
      · rename_i heq; cases heq; rfl

/-- A line that begins a field is one. -/
theorem readLine_field {c : Char} {cs : List Char} (hc : c ≠ ':') (pending : SseMessage) :
    readLine pending (c :: cs)
      = (none, pending.field (splitField (c :: cs)).1 (splitField (c :: cs)).2) := by
  rw [readLine, if_neg (by simp), if_neg]
  rw [List.head?_cons, Option.some.injEq]
  exact hc

variable {w : Wire}

/-- **A field is read back.** -/
theorem messages_field (hw : w.EventSource) {name value : List Char} (hne : name ≠ [])
    (hcolon : ':' ∉ name) (hname : '\n' ∉ name) (hname' : '\r' ∉ name) (hv : '\n' ∉ value)
    (hv' : '\r' ∉ value) (pending : SseMessage) (rest : List Char) :
    messages pending (lines [] (w.field name value ++ rest))
      = messages (pending.field name value) (lines [] rest) := by
  -- either form is a line whose field is this one
  have hline : ∀ line, '\n' ∉ line → '\r' ∉ line → splitField line = (name, value) →
      line.head? = name.head? →
      messages pending (lines [] (line ++ ['\n'] ++ rest))
        = messages (pending.field name value) (lines [] rest) := by
    intro line h h' hsplit hhead
    cases line with
    | nil =>
        cases name with
        | nil => exact absurd rfl hne
        | cons n ns => cases hhead
    | cons c cs =>
        have hc : c ≠ ':' := by
          rintro rfl
          rw [List.head?_cons] at hhead
          exact hcolon (List.mem_of_mem_head? hhead.symm)
        rw [List.append_assoc, List.singleton_append, lines_line h, trimEnd_eq h', messages,
          readLine_field hc, hsplit]
        rfl
  have hhead : ∀ tail, (name ++ tail).head? = name.head? := fun tail =>
    List.head?_append_of_ne_nil _ hne
  rcases hw.field name value hv hv' with h | ⟨hspace, h⟩
  · rw [h]
    refine hline _ ?_ ?_ (splitField_space hcolon value) (hhead _)
    · simp [hname, hv]
    · simp [hname', hv']
  · rw [h]
    refine hline _ ?_ ?_ (splitField_bare hcolon hspace) (hhead _)
    · simp [hname, hv]
    · simp [hname', hv']

theorem isDigit_idText {id : Nat} {c : Char} (h : c ∈ idText id) : c.isDigit = true :=
  Value.isDigit_toDigits h

theorem notMem_idText {id : Nat} {c : Char} (h : c.isDigit = false) : c ∉ idText id := by
  intro hc
  rw [isDigit_idText hc] at h
  cases h

/-- **An event is read back,** and leaves nothing pending. -/
theorem messages_toSse (hw : w.EventSource) {evt : AppWatchEvent} (hk : Kind evt)
    (rest : List Char) :
    messages .blank (lines [] (toSse w evt ++ rest))
      = message w evt :: messages .blank (lines [] rest) := by
  obtain ⟨hjson, hj, hj'⟩ := hw.json evt.payload
  have hkind : '\n' ∉ evt.kind.toList ∧ '\r' ∉ evt.kind.toList := by
    unfold Kind at hk
    simp only [List.mem_cons, List.not_mem_nil, or_false] at hk
    rcases hk with hk | hk | hk | hk
    · rw [hk]; decide
    · rw [hk]; decide
    · rw [hk]; decide
    · rw [hk]; decide
  unfold toSse
  rw [List.append_assoc, List.append_assoc, List.append_assoc,
    messages_field hw (by simp) (by decide) (by decide) (by decide)
      (notMem_idText (by decide)) (notMem_idText (by decide)),
    messages_field hw (by simp) (by decide) (by decide) (by decide) hkind.1 hkind.2,
    messages_field hw (by simp) (by decide) (by decide) (by decide) hj hj',
    List.singleton_append, lines_cons_newline, messages]
  have hmsg : ((SseMessage.blank.field ['i', 'd'] (idText evt.id)).field
      ['e', 'v', 'e', 'n', 't'] evt.kind.toList).field ['d', 'a', 't', 'a'] (w.json evt.payload)
      = message w evt := by
    simp [SseMessage.field, SseMessage.blank, message]
  have hblank : readLine (message w evt) (trimEnd []) = (some (message w evt), .blank) :=
    readLine_blank (by simp [SseMessage.begun, message])
  rw [hmsg, hblank]
  rfl

/-- What keeps the connection open says nothing. -/
theorem messages_keepAlive (hw : w.EventSource) (rest : List Char) :
    messages .blank (lines [] (Item.text w .keepAlive ++ rest))
      = messages .blank (lines [] rest) := by
  obtain ⟨pad, hpad, hpad', hc⟩ :=
    hw.comment ['k', 'e', 'e', 'p', 'a', 'l', 'i', 'v', 'e'] (by decide) (by decide)
  have hline : '\n' ∉ ':' :: (pad ++ ['k', 'e', 'e', 'p', 'a', 'l', 'i', 'v', 'e']) := by
    simp [hpad]
  have hline' : '\r' ∉ ':' :: (pad ++ ['k', 'e', 'e', 'p', 'a', 'l', 'i', 'v', 'e']) := by
    simp [hpad']
  have htext : Item.text w .keepAlive ++ rest
      = (':' :: (pad ++ ['k', 'e', 'e', 'p', 'a', 'l', 'i', 'v', 'e'])) ++ '\n' :: '\n' :: rest := by
    rw [Item.text, hc]
    simp
  rw [htext, lines_line hline, lines_cons_newline, trimEnd_eq hline']
  rfl

/-! ## What is read of the whole stream -/

variable {items : List Item}

/-- The text of a stream. -/
def wireText (w : Wire) (items : List Item) : List Char := items.flatMap (Item.text w)

/-- Every event is of a kind there is. -/
def Kinds (items : List Item) : Prop := ∀ item ∈ items, ∀ evt, item.evt = some evt → Kind evt

theorem messages_wireText (hw : w.EventSource) (hk : Kinds items) :
    messages .blank (lines [] (wireText w items)) = (items.filterMap Item.evt).map (message w) := by
  induction items with
  | nil => rfl
  | cons item items ih =>
      have hrest := ih fun item' hi => hk item' (List.mem_cons_of_mem _ hi)
      rw [wireText, List.flatMap_cons, ← wireText]
      cases item with
      | event evt =>
          rw [Item.text, messages_toSse hw (hk _ List.mem_cons_self evt rfl), hrest]
          rfl
      | keepAlive =>
          rw [messages_keepAlive hw, hrest]
          rfl

/-- What the lines of the first part of a text say, its lines say first. -/
theorem messages_isPrefix {ls ls' : List (List Char)} (h : ls <+: ls') : ∀ pending,
    messages pending ls <+: messages pending ls' := by
  induction ls generalizing ls' with
  | nil => exact fun pending => List.nil_prefix
  | cons l ls ih =>
      obtain ⟨rest, rfl⟩ := h
      intro pending
      rw [List.cons_append, messages, messages]
      exact (List.prefix_append_right_inj _).mpr (ih (List.prefix_append ls rest) _)

theorem lines_isPrefix {text text' : List Char} (h : text <+: text') :
    lines [] text <+: lines [] text' := by
  obtain ⟨rest, rfl⟩ := h
  unfold lines
  rw [terminated_append, List.map_append]
  exact List.prefix_append _ _

/-- A character that is replaced at the end ends no line. -/
theorem lines_replacement (text : List Char) : lines [] (text ++ [replacement]) = lines [] text := by
  have hnl : '\n' ∉ [replacement] := by decide
  unfold lines
  rw [terminated_append, terminated_of_notMem hnl, List.append_nil]

/-- What arrives: chunks, and possibly an error. -/
def delivered (chunks : List (List UInt8)) (broken : Option String) :
    List (Except String (List UInt8)) :=
  chunks.map .ok ++ broken.toList.map .error

theorem arriving_delivered (chunks : List (List UInt8)) (broken : Option String) :
    arriving (delivered chunks broken) = chunks.flatMap lossy := by
  induction chunks with
  | nil => cases broken <;> rfl
  | cons chunk chunks ih =>
      rw [List.flatMap_cons, ← ih]
      rfl

/-- How a connection ends. -/
def close (broken : Option String) : Except String Unit :=
  match broken with
  | none => .ok ()
  | some e => .error ("SSE stream error: " ++ e)

theorem ending_delivered (chunks : List (List UInt8)) (broken : Option String) :
    ending (delivered chunks broken) = close broken := by
  induction chunks with
  | nil => cases broken <;> rfl
  | cons chunk chunks ih =>
      rw [← ih]
      rfl

/--
**What the watch command prints.**

The server writes events and comments; the bytes arrive in chunks that begin no
character in the middle, and the connection may break off at any byte. The command
prints the messages of the first so many events, in order and each as it was sent,
and of all of them if nothing was lost; then it ends as the connection did.
-/
theorem watch_prints_events (hw : w.EventSource) (hk : Kinds items)
    {chunks : List (List UInt8)} (hcut : ∀ chunk ∈ chunks, Whole chunk) {lost : List UInt8}
    (hsent : chunks.flatten ++ lost = utf8 (wireText w items)) (broken : Option String) :
    ∃ k ≤ (items.filterMap Item.evt).length,
      (lost = [] → k = (items.filterMap Item.evt).length) ∧
      ∀ n, watch n (.new (delivered chunks broken)) =
        if n ≤ k then (((items.filterMap Item.evt).take n).map (message w), none)
        else (((items.filterMap Item.evt).take k).map (message w), some (close broken)) := by
  have hprefix : messages .blank (lines [] (chunks.flatMap lossy))
      <+: (items.filterMap Item.evt).map (message w) := by
    rw [← messages_wireText hw hk]
    obtain ⟨ds, hds, hread⟩ := flatMap_lossy_prefix hcut hsent
    rcases hread with hread | hread
    · rw [hread]
      exact messages_isPrefix (lines_isPrefix hds) _
    · rw [hread, lines_replacement]
      exact messages_isPrefix (lines_isPrefix hds) _
  have hmsgs : (SseStream.new (delivered chunks broken)).messages
      = messages .blank (lines [] (chunks.flatMap lossy)) := by
    rw [SseStream.messages, SseStream.new, List.nil_append, arriving_delivered]
  have htake := List.prefix_iff_eq_take.mp hprefix
  have hle := hprefix.length_le
  rw [List.length_map] at hle
  refine ⟨(messages .blank (lines [] (chunks.flatMap lossy))).length, hle, ?_, fun n => ?_⟩
  · rintro rfl
    rw [List.append_nil] at hsent
    rw [flatMap_lossy hcut hsent, messages_wireText hw hk, List.length_map]
  · rw [watch_eq, hmsgs]
    have hending : ending (SseStream.new (delivered chunks broken)).body = close broken :=
      ending_delivered chunks broken
    rw [hending]
    by_cases hn : n ≤ (messages .blank (lines [] (chunks.flatMap lossy))).length
    · rw [if_pos hn, if_pos hn]
      rw [htake, List.take_take, Nat.min_eq_left hn, List.map_take]
    · rw [if_neg hn, if_neg hn, List.map_take, ← htake]

/-- The connection breaks off inside the second of two events, after a comment: the first is
printed, and then the error. -/
theorem web_printed :
    let requested : AppWatchEvent := ⟨1, "web", "sync_requested", .syncRequested "web"⟩
    let changed : AppWatchEvent := ⟨2, "web", "app_changed", .appChanged "web" "infra"⟩
    let items : List Item := [.event requested, .keepAlive, .event changed]
    let bytes := utf8 (wireText plainWire items)
    ∃ k ≤ 2, (bytes.drop 90 = [] → k = 2) ∧
      ∀ n, watch n (.new (delivered [bytes.take 30, (bytes.take 90).drop 30] (some "reset"))) =
        if n ≤ k then ((([requested, changed]).take n).map (message plainWire), none)
        else ((([requested, changed]).take k).map (message plainWire),
          some (.error "SSE stream error: reset")) :=
  @watch_prints_events plainWire
    [.event ⟨1, "web", "sync_requested", .syncRequested "web"⟩, .keepAlive,
      .event ⟨2, "web", "app_changed", .appChanged "web" "infra"⟩]
    plainWire_eventSource
    (by
      intro item hitem evt hevt
      simp only [List.mem_cons, List.not_mem_nil, or_false] at hitem
      rcases hitem with rfl | rfl | rfl
      · cases hevt; decide
      · cases hevt
      · cases hevt; decide)
    _ (by decide +kernel) _ (by decide +kernel) (some "reset")

/-! ## Coming back -/

variable {app : String}

section

variable {s : State} {backlog queue out : List AppWatchEvent}
  (hclient : s.client = .streaming backlog queue out)

include hclient

end

end SynchrotronCD.Watch
