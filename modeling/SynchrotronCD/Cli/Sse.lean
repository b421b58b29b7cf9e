import Mathlib.Data.List.DropRight
import SynchrotronCD.Lib.Text
import SynchrotronCD.Lib.Utf8Lossy

/-!
# The watch command's stream

The command line client reads the watch stream as it arrives: a chunk of bytes is
decoded and buffered, complete lines are taken off the buffer, and a blank line ends
a message. What it yields is what the lines of the whole stream say, however they
were cut into chunks and between calls (`watch_eq`).

A chunk is decoded on its own, so a character that two chunks share is not read.
-/

namespace SynchrotronCD

open Lib

namespace Sse

/-- One message as parsed by the client. -/
structure SseMessage where
  event : Option (List Char)
  id : Option (List Char)
  data : List Char
deriving DecidableEq, Repr

/-- `SseMessage::default`. -/
def SseMessage.blank : SseMessage := ⟨none, none, []⟩

structure SseStream where
  /-- What is still to arrive, up to the end of the stream. -/
  body : List (Except String (List UInt8))
  buf : List Char
  pending : SseMessage

def SseStream.new (body : List (Except String (List UInt8))) : SseStream := ⟨body, [], .blank⟩

/-- `str::trim_end_matches('\r')`. -/
def trimEnd (line : List Char) : List Char := line.rdropWhile (fun c => c == '\r')

/-- The name of a field and its value, with one space in front of it taken away. -/
def splitField (line : List Char) : List Char × List Char :=
  match line.dropWhile (fun c => c != ':') with
  | [] => (line, [])
  | _ :: ' ' :: value => (line.takeWhile (fun c => c != ':'), value)
  | _ :: value => (line.takeWhile (fun c => c != ':'), value)

/-- What a field adds to the message under way. -/
def SseMessage.field (pending : SseMessage) (name value : List Char) : SseMessage :=
  if name = ['e', 'v', 'e', 'n', 't'] then { pending with event := some value }
  else if name = ['i', 'd'] then { pending with id := some value }
  else if name = ['d', 'a', 't', 'a'] then
    { pending with
      data := (if pending.data.isEmpty then [] else pending.data ++ ['\n']) ++ value }
  else pending

/-- Whether there is anything to be returned. -/
def SseMessage.begun (pending : SseMessage) : Bool :=
  !pending.data.isEmpty || pending.event.isSome || pending.id.isSome

/-- One line of the stream: the message it completes, and what is pending after it. -/
def readLine (pending : SseMessage) (line : List Char) : Option SseMessage × SseMessage :=
  if line.isEmpty then
    if pending.begun then (some pending, .blank) else (none, pending)
  else if line.head? = some ':' then (none, pending)
  else (none, pending.field (splitField line).1 (splitField line).2)

/-- Complete lines are taken off the buffer until one completes a message: the message, what is
left of the buffer and what is pending. `line` is the line under way. -/
def drain (pending : SseMessage) (line : List Char) :
    List Char → Option SseMessage × List Char × SseMessage
  | [] => (none, line, pending)
  | c :: cs =>
    if c = '\n' then
      match readLine pending (trimEnd line) with
      | (some msg, pending) => (some msg, cs, pending)
      | (none, pending) => drain pending [] cs
    else drain pending (line ++ [c]) cs

/-- `SseStream::next`, by recursion on what is still to arrive. -/
def nextFrom (buf : List Char) (pending : SseMessage) :
    List (Except String (List UInt8)) → Except String (Option SseMessage) × SseStream
  | [] =>
    match drain pending [] buf with
    | (some msg, buf, pending) => (.ok (some msg), ⟨[], buf, pending⟩)
    | (none, buf, pending) => (.ok none, ⟨[], buf, pending⟩)
  | arrival :: body =>
    match drain pending [] buf with
    | (some msg, buf, pending) => (.ok (some msg), ⟨arrival :: body, buf, pending⟩)
    | (none, buf, pending) =>
      match arrival with
      | .ok chunk => nextFrom (buf ++ lossy chunk) pending body
      | .error e => (.error ("SSE stream error: " ++ e), ⟨body, buf, pending⟩)

/-- Pull the next message. `none` on stream end. -/
def SseStream.next (s : SseStream) : Except String (Option SseMessage) × SseStream :=
  nextFrom s.buf s.pending s.body

/-- The command's loop, up to so many calls: the messages it prints, and how it ends if it does. -/
def watch : Nat → SseStream → List SseMessage × Option (Except String Unit)
  | 0, _ => ([], none)
  | n + 1, s =>
    match s.next with
    | (.ok (some msg), s) => (msg :: (watch n s).1, (watch n s).2)
    | (.ok none, _) => ([], some (.ok ()))
    | (.error e, _) => ([], some (.error e))

/-! ## What the lines say -/

/-- The messages that lines complete. -/
def messages (pending : SseMessage) : List (List Char) → List SseMessage
  | [] => []
  | line :: lines =>
    (readLine pending line).1.toList ++ messages (readLine pending line).2 lines

/-- The complete lines of a text, after the one under way. -/
def lines (line text : List Char) : List (List Char) := (terminated '\n' line text).map trimEnd

/-- The text that arrives before the stream breaks off. -/
def arriving : List (Except String (List UInt8)) → List Char
  | [] => []
  | .ok chunk :: body => lossy chunk ++ arriving body
  | .error _ :: _ => []

/-- How the stream ends. -/
def ending : List (Except String (List UInt8)) → Except String Unit
  | [] => .ok ()
  | .ok _ :: body => ending body
  | .error e :: _ => .error ("SSE stream error: " ++ e)

/-- What a stream still has to say. -/
def SseStream.messages (s : SseStream) : List SseMessage :=
  Sse.messages s.pending (lines [] (s.buf ++ arriving s.body))

theorem readLine_pending {pending : SseMessage} {line : List Char} {msg : SseMessage}
    (h : (readLine pending line).1 = some msg) : readLine pending line = (some msg, .blank) := by
  unfold readLine at h ⊢
  split at h
  · rename_i hblank
    split at h
    · rename_i hb
      cases h
      rw [if_pos hblank, if_pos hb]
    · cases h
  · split at h <;> cases h

/-- A blank line ends a message that was begun. -/
theorem readLine_blank {pending : SseMessage} (h : pending.begun = true) :
    readLine pending [] = (some pending, .blank) := by
  rw [readLine, if_pos (by rfl), if_pos h]

theorem lines_cons_newline (line cs : List Char) :
    lines line ('\n' :: cs) = trimEnd line :: lines [] cs := by
  simp [lines, terminated]

theorem lines_cons {c : Char} (h : c ≠ '\n') (line cs : List Char) :
    lines line (c :: cs) = lines (line ++ [c]) cs := by
  simp [lines, terminated, h]

/-- A buffer with no line end is the line under way. -/
theorem lines_append {line : List Char} (h : '\n' ∉ line) (text : List Char) :
    lines [] (line ++ text) = lines line text := by
  unfold lines
  rw [terminated_append, terminated_of_notMem h, unterminated_of_notMem h, List.nil_append,
    List.nil_append]

/-- **Draining the buffer,** with whatever is to follow it. -/
theorem drain_spec (text buf : List Char) : ∀ pending line, '\n' ∉ line →
    (∃ msg rest, drain pending line buf = (some msg, rest, .blank) ∧
      messages pending (lines line (buf ++ text))
        = msg :: messages .blank (lines [] (rest ++ text))) ∨
    ∃ rest pending', drain pending line buf = (none, rest, pending') ∧ '\n' ∉ rest ∧
      messages pending (lines line (buf ++ text)) = messages pending' (lines [] (rest ++ text)) := by
  induction buf with
  | nil =>
      intro pending line hline
      refine .inr ⟨line, pending, rfl, hline, ?_⟩
      rw [lines_append hline, List.nil_append]
  | cons c cs ih =>
      intro pending line hline
      by_cases hc : c = '\n'
      · subst hc
        rw [List.cons_append, lines_cons_newline, drain, if_pos rfl, messages]
        cases hr : readLine pending (trimEnd line) with
        | mk emitted pending' =>
            cases emitted with
            | some msg =>
                have hp : readLine pending (trimEnd line) = (some msg, .blank) :=
                  readLine_pending (by rw [hr])
                rw [hr] at hp
                cases hp
                exact .inl ⟨msg, cs, rfl, rfl⟩
            | none =>
                -- the line completes nothing, so the next one is read
                exact ih pending' [] List.not_mem_nil
      · rw [List.cons_append, lines_cons hc, drain, if_neg hc]
        refine ih pending (line ++ [c]) ?_
        rw [List.mem_append, List.mem_singleton]
        rintro (h | h)
        · exact hline h
        · exact hc h.symm

/-- **One call:** the next message of what the stream still says, or how it ends. -/
theorem nextFrom_spec (body : List (Except String (List UInt8))) : ∀ buf pending,
    (∃ msg s, nextFrom buf pending body = (.ok (some msg), s) ∧
      messages pending (lines [] (buf ++ arriving body)) = msg :: s.messages ∧
      ending s.body = ending body) ∨
    messages pending (lines [] (buf ++ arriving body)) = [] ∧
      ∃ s, nextFrom buf pending body = ((ending body).map fun _ => none, s) := by
  induction body with
  | nil =>
      intro buf pending
      rcases drain_spec [] buf pending [] List.not_mem_nil with
        ⟨msg, rest, hd, hm⟩ | ⟨rest, pending', hd, hrest, hm⟩
      · refine .inl ⟨msg, ⟨[], rest, .blank⟩, ?_, hm, rfl⟩
        rw [nextFrom, hd]
      · refine .inr ⟨?_, ⟨[], rest, pending'⟩, ?_⟩
        · rw [arriving, hm, lines_append hrest]
          rfl
        · rw [nextFrom, hd]
          rfl
  | cons arrival body ih =>
      intro buf pending
      rcases drain_spec (arriving (arrival :: body)) buf pending [] List.not_mem_nil with
        ⟨msg, rest, hd, hm⟩ | ⟨rest, pending', hd, hrest, hm⟩
      · refine .inl ⟨msg, ⟨arrival :: body, rest, .blank⟩, ?_, hm, rfl⟩
        rw [nextFrom, hd]
      · cases arrival with
        | ok chunk =>
            have hnext : nextFrom buf pending (.ok chunk :: body)
                = nextFrom (rest ++ lossy chunk) pending' body := by
              rw [nextFrom, hd]
            have htext : rest ++ arriving (.ok chunk :: body)
                = rest ++ lossy chunk ++ arriving body := by
              rw [arriving, List.append_assoc]
            rw [hm, hnext, htext]
            exact ih (rest ++ lossy chunk) pending'
        | error e =>
            refine .inr ⟨?_, ⟨body, rest, pending'⟩, ?_⟩
            · rw [hm, arriving, lines_append hrest]
              rfl
            · rw [nextFrom, hd]
              rfl

/-- **The whole stream.** What the command prints is what the lines of the stream say, one message
a call, and it ends as the stream does. -/
theorem watch_eq (n : Nat) (s : SseStream) :
    watch n s = if n ≤ s.messages.length then (s.messages.take n, none)
      else (s.messages, some (ending s.body)) := by
  induction n generalizing s with
  | zero => simp [watch]
  | succ n ih =>
      rw [watch]
      rcases nextFrom_spec s.body s.buf s.pending with ⟨msg, s', hn, hm, he⟩ | ⟨hm, s', hn⟩
      · have hmsgs : s.messages = msg :: s'.messages := hm
        rw [SseStream.next, hn, hmsgs]
        simp only [ih s', List.length_cons, Nat.add_le_add_iff_right, List.take_succ_cons]
        split
        · rfl
        · rw [he]
      · have hmsgs : s.messages = [] := hm
        rw [SseStream.next, hn, hmsgs, if_neg (by simp)]
        cases ending s.body <;> rfl

end Sse

end SynchrotronCD
