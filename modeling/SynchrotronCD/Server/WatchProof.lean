import SynchrotronCD.Server.Watch

/-!
# What a watching client gets

The ring is always a piece of the history of its app, and ids always increase
(`Logged`); nothing can break that. Whether the stream of a client has each event
once depends on how its two steps fall between those of the fan-in task. An event
read from the ring and sent after the subscription arrives twice; one appended
after the ring was read and sent before the subscription never arrives. Runs
without either are exactly the ones in which every client is served faithfully
(`servesFaithfully_iff`).
-/

namespace SynchrotronCD.Watch

open Lib

variable {app : String}

/-! ## The ring and the ids -/

/-- Ids increase along the history, and the rings hold pieces of it. -/
structure Logged (s : State) : Prop where
  ids : s.history.Pairwise (fun a b => a.id < b.id)
  next : ∀ e ∈ s.history, e.id < s.watcher.nextId
  ring : ∀ a, (s.watcher.buffer a).Sublist (s.history.filter fun e => e.app = a)
  /-- The event in hand is the last one appended. -/
  hand : ∀ e, s.inHand = some e → e ∈ s.history ∧ ∀ x ∈ s.history, x.id ≤ e.id

theorem logged_new (cap : Nat) : Logged (State.new cap) where
  ids := List.Pairwise.nil
  next := by intro e he; simp [State.new] at he
  ring := by intro a; simp [State.new, AppWatcher.buffer]
  hand := by intro e he; simp [State.new] at he

theorem convertEvent_id {sys : SystemEvent} {id : Nat} {evt : AppWatchEvent}
    (h : convertEvent sys id = some evt) : evt.id = id := by
  cases sys with
  | manualSyncRequested a => injection h with h; rw [← h]
  | appChanged a r => injection h with h; rw [← h]
  | syncOutcome o => injection h with h; rw [← h]
  | appHealthAssessed a c st m => injection h with h; rw [← h]
  | repoChanged r n => simp [convertEvent] at h
  | repoUnchanged r n => simp [convertEvent] at h
  | repoFetchFailed r e => simp [convertEvent] at h
  | webhookTriggered r w => simp [convertEvent] at h

/-- **The two ways an event of the bus is taken in**: not at all, or into ring and hand. -/
theorem append_cases (s : State) (sys : SystemEvent) :
    step app s (.append sys) = s
    ∨ ∃ evt, s.inHand = none ∧ evt.id = s.watcher.nextId
      ∧ step app s (.append sys) = { s with
          watcher := { s.watcher with nextId := s.watcher.nextId + 1 }.append evt
          inHand := some evt
          history := s.history ++ [evt] } := by
  simp only [step]
  cases hh : s.inHand with
  | some e => exact Or.inl rfl
  | none =>
      cases hc : convertEvent sys s.watcher.nextId with
      | none => exact Or.inl rfl
      | some evt => exact Or.inr ⟨evt, rfl, convertEvent_id hc, rfl⟩

theorem buffer_append (w : AppWatcher) (evt : AppWatchEvent) (a : String) :
    (w.append evt).buffer a = if a = evt.app
      then (w.buffer a ++ [evt]).drop ((w.buffer a ++ [evt]).length - w.perAppCapacity)
      else w.buffer a := by
  unfold AppWatcher.append AppWatcher.buffer
  by_cases ha : a = evt.app
  · subst ha
    rw [if_pos rfl, AList.lookup_insert]
    rfl
  · rw [if_neg ha, AList.lookup_insert_ne ha]

theorem logged_append {s : State} (h : Logged s) {evt : AppWatchEvent}
    (hid : evt.id = s.watcher.nextId) :
    Logged { s with
      watcher := { s.watcher with nextId := s.watcher.nextId + 1 }.append evt
      inHand := some evt
      history := s.history ++ [evt] } where
  ids := by
    rw [List.pairwise_append]
    refine ⟨h.ids, List.pairwise_singleton _ _, ?_⟩
    intro x hx y hy
    rw [List.mem_singleton.mp hy, hid]
    exact h.next x hx
  next := by
    intro e he
    show e.id < s.watcher.nextId + 1
    rcases List.mem_append.mp he with he | he
    · exact Nat.lt_succ_of_lt (h.next e he)
    · rw [List.mem_singleton.mp he, hid]
      exact Nat.lt_succ_self _
  ring := by
    intro a
    dsimp only
    rw [buffer_append, List.filter_append]
    have hring := h.ring a
    split
    · rename_i ha
      have hone : [evt].filter (fun e => e.app = a) = [evt] := by simp [ha]
      rw [hone]
      exact (List.drop_sublist _ _).trans (hring.append (List.Sublist.refl _))
    · exact hring.trans (List.sublist_append_left _ _)
  hand := by
    intro e he
    obtain rfl : evt = e := Option.some.inj he
    refine ⟨List.mem_append_right _ (List.mem_singleton.mpr rfl), ?_⟩
    intro x hx
    rcases List.mem_append.mp hx with hx | hx
    · rw [hid]
      exact Nat.le_of_lt (h.next x hx)
    · rw [List.mem_singleton.mp hx]

/-- **Ids and rings are right in every run.** -/
theorem logged_step (s : State) (e : Event) (h : Logged s) : Logged (step app s e) := by
  cases e with
  | append sys =>
      rcases @append_cases app s sys with heq | ⟨evt, _, hid, heq⟩
      · rw [heq]; exact h
      · rw [heq]; exact logged_append h hid
  | send =>
      simp only [step]
      split
      · exact ⟨h.ids, h.next, h.ring, fun e he => by simp at he⟩
      · exact h
  | replay lastEventId =>
      simp only [step]
      split
      · exact ⟨h.ids, h.next, h.ring, h.hand⟩
      · exact h
  | subscribe =>
      simp only [step]
      split
      · exact ⟨h.ids, h.next, h.ring, h.hand⟩
      · exact h
  | deliver =>
      simp only [step]
      split
      · exact ⟨h.ids, h.next, h.ring, h.hand⟩
      · exact ⟨h.ids, h.next, h.ring, h.hand⟩
      · exact h

/-- What the ring of an app holds is of that app, of the history, and in order. -/
theorem Logged.buffer_mem {s : State} (h : Logged s) {a : String} {e : AppWatchEvent}
    (he : e ∈ s.watcher.buffer a) : e ∈ s.history ∧ e.app = a := by
  obtain ⟨hm, ha⟩ := List.mem_filter.mp ((h.ring a).subset he)
  exact ⟨hm, of_decide_eq_true ha⟩

theorem Logged.eq_of_id {s : State} (h : Logged s) {a b : AppWatchEvent} (ha : a ∈ s.history)
    (hb : b ∈ s.history) (hid : a.id = b.id) : a = b := by
  have hnd : (s.history.map AppWatchEvent.id).Nodup :=
    List.pairwise_map.mpr (h.ids.imp fun hab => Nat.ne_of_lt hab)
  exact List.inj_on_of_nodup_map hnd ha hb hid

/-! ## The client -/

/-- Ring, channel and client fit together. -/
structure Joined (app : String) (s : State) : Prop where
  logged : Logged s
  /-- Between its two steps the handler has read the ring, and of what was appended since and the
  client wants, nothing has been sent. -/
  read : ∀ backlog, s.client = .replayed backlog →
    backlog = s.ringAtReplay.filter (fun e => decide (s.since.getD 0 < e.id)) ∧
    s.ringAtReplay.Sublist (s.history.filter fun e => e.app = app) ∧
    (∀ e ∈ s.ringAtReplay, e.id < s.nextAtReplay) ∧
    ∀ e ∈ s.history, e.app = app → s.since.getD 0 < e.id → s.nextAtReplay ≤ e.id →
      s.inHand = some e
  faithful : Faithful app s
  /-- The event in hand comes after all the client has. -/
  ahead : ∀ e, s.inHand = some e → e.app = app → ∀ x ∈ received app s.client, x.id < e.id

theorem joined_new (cap : Nat) : Joined app (State.new cap) where
  logged := logged_new cap
  read := by intro backlog h; simp [State.new] at h
  faithful := ⟨by simp [State.new, received], by simp [State.new, received],
    by intro b q o h; simp [State.new] at h⟩
  ahead := by intro e h; simp [State.new] at h

/-- In a list with increasing ids, what occurs occurs once. -/
theorem count_of_mem {l : List AppWatchEvent} (h : l.Pairwise fun a b => a.id < b.id)
    {e : AppWatchEvent} (he : e ∈ l) : l.count e = 1 := by
  have hnd : l.Nodup := h.imp fun hab heq => by rw [heq] at hab; exact Nat.lt_irrefl _ hab
  exact List.count_eq_one_of_mem hnd he

/-- Before the stream is open nothing is received. -/
theorem faithful_of_nil {s : State} (h : received app s.client = [])
    (hc : ∀ b q o, s.client ≠ .streaming b q o) : Faithful app s where
  ordered := by rw [h]; exact List.Pairwise.nil
  only := by rw [h]; simp
  complete := fun b q o heq => absurd heq (hc b q o)

theorem joined_append {s : State} (h : Joined app s) (sys : SystemEvent) :
    Joined app (step app s (.append sys)) := by
  have hlogged := @logged_step app s (.append sys) h.logged
  rcases @append_cases app s sys with heq | ⟨evt, hnone, hid, heq⟩
  · rw [heq]; exact h
  rw [heq] at hlogged ⊢
  refine ⟨hlogged, fun backlog hc => ?_, ⟨h.faithful.ordered, fun e he => ?_, ?_⟩, ?_⟩
  · obtain ⟨hb, hring, hlt, hgap⟩ := h.read backlog hc
    refine ⟨hb, ?_, hlt, fun e he ha hs hn => ?_⟩
    · dsimp only
      rw [List.filter_append]
      exact hring.trans (List.sublist_append_left _ _)
    · rcases List.mem_append.mp he with he | he
      · rw [hnone] at hgap
        exact absurd (hgap e he ha hs hn) (by simp)
      · rw [List.mem_singleton.mp he]
  · obtain ⟨ha, hm⟩ := h.faithful.only e he
    exact ⟨ha, List.mem_append_left _ hm⟩
  · intro b q o hc e hreq
    obtain ⟨ha, hs, hwhere⟩ := hreq
    have hold : Required app s e ∨ e = evt := by
      rcases hwhere with hr | ⟨he, hn⟩
      · exact Or.inl ⟨ha, hs, Or.inl hr⟩
      · rcases List.mem_append.mp he with he | he
        · exact Or.inl ⟨ha, hs, Or.inr ⟨he, hn⟩⟩
        · exact Or.inr (List.mem_singleton.mp he)
    rcases hold with hreq | rfl
    · -- whatever was owed before had arrived: nothing was in hand
      rcases h.faithful.complete b q o hc e hreq with h1 | h1
      · exact Or.inl h1
      · rw [hnone] at h1; simp at h1
    · exact Or.inr rfl
  · intro e he _ x hx
    obtain rfl : evt = e := Option.some.inj he
    rw [hid]
    exact h.logged.next x (h.faithful.only x hx).2

/-- The event that is sent joins the end of the queue of an open stream. -/
theorem faithful_send {s : State} (h : Joined app s) {evt : AppWatchEvent} (hh : s.inHand = some evt)
    {b q o : List AppWatchEvent} (hcl : s.client = .streaming b q o) :
    Faithful app { s with inHand := none, client := .streaming b (q ++ [evt]) o } := by
  have hrec : received app (Client.streaming b (q ++ [evt]) o)
      = received app s.client ++ (if evt.app = app then [evt] else []) := by
    rw [hcl]
    by_cases ha : evt.app = app <;> simp [received, ha]
  have hord : (received app (Client.streaming b (q ++ [evt]) o)).Pairwise
      (fun a b => a.id < b.id) := by
    rw [hrec]
    split
    · rename_i ha
      rw [List.pairwise_append]
      refine ⟨h.faithful.ordered, List.pairwise_singleton _ _, ?_⟩
      intro x hx y hy
      rw [List.mem_singleton.mp hy]
      exact h.ahead evt hh ha x hx
    · rw [List.append_nil]
      exact h.faithful.ordered
  refine ⟨hord, fun e he => ?_, ?_⟩
  · have he' : e ∈ received app (Client.streaming b (q ++ [evt]) o) := he
    rw [hrec] at he'
    rcases List.mem_append.mp he' with he | he
    · exact h.faithful.only e he
    · split at he
      · rename_i ha
        rw [List.mem_singleton.mp he]
        exact ⟨ha, (h.logged.hand evt hh).1⟩
      · simp at he
  · intro b' q' o' _ e hreq
    have hmem : e ∈ received app (Client.streaming b (q ++ [evt]) o) := by
      rw [hrec]
      rcases h.faithful.complete b q o hcl e hreq with h1 | h1
      · exact List.mem_append_left _ (List.count_pos_iff.mp (by omega))
      · rw [hh] at h1
        obtain rfl : evt = e := Option.some.inj h1
        rw [if_pos hreq.1]
        exact List.mem_append_right _ (List.mem_singleton.mpr rfl)
    exact Or.inl (count_of_mem hord hmem)

theorem joined_send {s : State} (h : Joined app s) (hc : Uncrossed app s .send) :
    Joined app (step app s .send) := by
  have hlogged := @logged_step app s .send h.logged
  cases hh : s.inHand with
  | none =>
      have hsame : step app s .send = s := by simp [step, hh]
      rw [hsame]; exact h
  | some evt =>
      have hstep : step app s .send = { s with inHand := none, client := s.client.receive evt } := by
        simp [step, hh]
      rw [hstep] at hlogged ⊢
      cases hcl : s.client with
      | away =>
          rw [hcl] at hlogged
          refine ⟨hlogged, fun b hb => ?_, faithful_of_nil rfl (fun b q o hx => ?_), fun e he => ?_⟩
          · exact Client.noConfusion hb
          · exact Client.noConfusion hx
          · exact absurd he (by simp)
      | replayed backlog =>
          -- what is sent now is nothing the client waits for
          obtain ⟨hb, hring, hlt, hgap⟩ := h.read backlog hcl
          rw [hcl] at hlogged
          refine ⟨hlogged, fun b hx => ?_, faithful_of_nil rfl (fun b q o hx => ?_), fun e he => ?_⟩
          · injection hx with hx
            rw [← hx]
            refine ⟨hb, hring, hlt, fun e he ha hs hn => ?_⟩
            have hin := hgap e he ha hs hn
            exact absurd (hc backlog hcl e hin ha hs) (Nat.not_lt.mpr hn)
          · exact Client.noConfusion hx
          · exact absurd he (by simp)
      | streaming b q o =>
          rw [hcl] at hlogged
          exact ⟨hlogged, fun b hx => Client.noConfusion hx, faithful_send h hh hcl,
            fun e he => absurd he (by simp)⟩

theorem joined_replay {s : State} (h : Joined app s) (lastEventId : Option String) :
    Joined app (step app s (.replay lastEventId)) := by
  have hlogged := @logged_step app s (.replay lastEventId) h.logged
  simp only [step] at hlogged ⊢
  split at hlogged
  · refine ⟨hlogged, fun backlog hc => ?_, faithful_of_nil rfl (fun b q o hx => ?_), fun e _ _ x hx => ?_⟩
    · injection hc with hc
      refine ⟨hc.symm, h.logged.ring app, fun e he => ?_, fun e he _ _ hn => ?_⟩
      · exact h.logged.next e (h.logged.buffer_mem he).1
      · exact absurd (h.logged.next e he) (Nat.not_lt.mpr hn)
    · exact Client.noConfusion hx
    · simp [received] at hx
  · exact h

theorem joined_subscribe {s : State} (h : Joined app s) (hc : Uncrossed app s .subscribe) :
    Joined app (step app s .subscribe) := by
  have hlogged := @logged_step app s .subscribe h.logged
  cases hcl : s.client with
  | away =>
      have hsame : step app s .subscribe = s := by simp [step, hcl]
      rw [hsame]; exact h
  | streaming b q o =>
      have hsame : step app s .subscribe = s := by simp [step, hcl]
      rw [hsame]; exact h
  | replayed backlog =>
      obtain ⟨hb, hring, hlt, hgap⟩ := h.read backlog hcl
      have hstep : step app s .subscribe = { s with client := .streaming backlog [] [] } := by
        simp [step, hcl]
      have hrec : received app (Client.streaming backlog [] []) = backlog := by simp [received]
      have hsub : backlog.Sublist (s.history.filter fun e => e.app = app) := by
        rw [hb]; exact List.filter_sublist.trans hring
      have hmem : ∀ e ∈ backlog, e.app = app ∧ e ∈ s.history := by
        intro e he
        obtain ⟨hm, ha⟩ := List.mem_filter.mp (hsub.subset he)
        exact ⟨of_decide_eq_true ha, hm⟩
      have hord : backlog.Pairwise (fun a b => a.id < b.id) :=
        (h.logged.ids.sublist List.filter_sublist).sublist hsub
      rw [hstep] at hlogged ⊢
      refine ⟨hlogged, fun b hx => Client.noConfusion hx, ⟨?_, ?_, ?_⟩, ?_⟩
      · dsimp only; rw [hrec]; exact hord
      · dsimp only; rw [hrec]; exact hmem
      · intro b q o _ e hreq
        obtain ⟨ha, hs, hwhere⟩ := hreq
        dsimp only
        rw [hrec]
        rcases hwhere with hr | ⟨he, hn⟩
        · refine Or.inl (count_of_mem hord ?_)
          rw [hb]
          exact List.mem_filter.mpr ⟨hr, by simpa using hs⟩
        · exact Or.inr (hgap e he ha hs hn)
      · intro e he _ x hx
        dsimp only at hx
        rw [hrec] at hx
        obtain ⟨hin, hlast⟩ := h.logged.hand e he
        -- the event in hand is the last of all, and not among those read
        refine lt_of_le_of_ne (hlast x (hmem x hx).2) ?_
        intro hid
        obtain rfl := h.logged.eq_of_id (hmem x hx).2 hin hid
        exact hc backlog hcl x he hx

theorem joined_deliver {s : State} (h : Joined app s) : Joined app (step app s .deliver) := by
  have hlogged := @logged_step app s .deliver h.logged
  -- what the stream yields moves from what it holds to what was sent
  have key : ∀ c c' : Client, s.client = c → received app c' = received app c →
      (∀ b, c' ≠ .replayed b) → (∃ b q o, c = .streaming b q o) →
      Logged { s with client := c' } → Joined app { s with client := c' } := by
    intro c c' hcl hrec hne hopen hl
    obtain ⟨b, q, o, rfl⟩ := hopen
    refine ⟨hl, fun b hx => absurd hx (hne b), ⟨?_, ?_, ?_⟩, ?_⟩
    · dsimp only; rw [hrec, ← hcl]; exact h.faithful.ordered
    · dsimp only; rw [hrec, ← hcl]; exact h.faithful.only
    · intro _ _ _ _ e hreq
      dsimp only
      rw [hrec, ← hcl]
      exact h.faithful.complete b q o hcl e hreq
    · dsimp only; rw [hrec, ← hcl]; exact h.ahead
  simp only [step] at hlogged ⊢
  split at hlogged
  · rename_i evt b q o hcl
    refine key _ _ hcl ?_ (by simp) ⟨_, _, _, rfl⟩ hlogged
    simp [received]
  · rename_i evt q o hcl
    refine key _ _ hcl ?_ (by simp) ⟨_, _, _, rfl⟩ hlogged
    by_cases ha : evt.app = app <;> simp [received, ha]
  · exact h

/-- **A step that does not cross keeps ring, channel and client together.** -/
theorem joined_step (s : State) (e : Event) (h : Joined app s) (hc : Uncrossed app s e) :
    Joined app (step app s e) := by
  cases e with
  | append sys => exact joined_append h sys
  | send => exact joined_send h hc
  | replay lastEventId => exact joined_replay h lastEventId
  | subscribe => exact joined_subscribe h hc
  | deliver => exact joined_deliver h

/-! ## When a client is served faithfully -/

/-- The steps that have nothing to cross: subscribing while no event is in hand, and sending while
no handler is between its two steps. -/
def Settling (s : State) : Event → Prop
  | .subscribe => s.inHand = none
  | .send => ∀ backlog, s.client ≠ .replayed backlog
  | _ => False

theorem uncrossed_settling {s : State} {e : Event} (h : Settling s e) : Uncrossed app s e := by
  cases e with
  | subscribe =>
      intro backlog _ evt hh
      have hnone : s.inHand = none := h
      rw [hnone] at hh; simp at hh
  | send => exact fun backlog hcl => absurd hcl (h backlog)
  | _ => exact absurd h id

/-- All along a run the client is served faithfully, and it would be after one more step that has
nothing to cross. -/
def ServesFaithfully (app : String) (cap : Nat) (run : List Event) : Prop :=
  ∀ pre, pre <+: run → Faithful app (exec (step app) (State.new cap) pre) ∧
    ∀ e, Settling (exec (step app) (State.new cap) pre) e →
      Faithful app (step app (exec (step app) (State.new cap) pre) e)

/-- **Subscribing with an event in hand that was read already brings it twice.** -/
theorem duplicated_of_crossed {s : State} (h : Joined app s) {backlog : List AppWatchEvent}
    {e : AppWatchEvent} (hcl : s.client = .replayed backlog) (hh : s.inHand = some e)
    (he : e ∈ backlog) :
    Settling (step app s .subscribe) .send ∧
      ¬ Faithful app (step app (step app s .subscribe) .send) := by
  obtain ⟨hb, hring, _, _⟩ := h.read backlog hcl
  have ha : e.app = app := by
    rw [hb] at he
    exact of_decide_eq_true (List.mem_filter.mp (hring.subset (List.mem_filter.mp he).1)).2
  have hsub : step app s .subscribe = { s with client := .streaming backlog [] [] } := by
    simp [step, hcl]
  have hrec : received app (step app (step app s .subscribe) .send).client = backlog ++ [e] := by
    rw [hsub]
    simp [step, hh, Client.receive, received, ha]
  refine ⟨fun b hx => by rw [hsub] at hx; exact Client.noConfusion hx, fun hf => ?_⟩
  have hord := hf.ordered
  rw [hrec, List.pairwise_append] at hord
  exact Nat.lt_irrefl _ (hord.2.2 e he e (List.mem_singleton.mpr rfl))

/-- **An event appended after the ring was read and sent before the subscription is lost.** -/
theorem lost_of_crossed {s : State} (h : Joined app s) {backlog : List AppWatchEvent}
    {e : AppWatchEvent} (hcl : s.client = .replayed backlog) (hh : s.inHand = some e)
    (ha : e.app = app) (hs : s.since.getD 0 < e.id) (hn : s.nextAtReplay ≤ e.id) :
    Settling (step app s .send) .subscribe ∧
      ¬ Faithful app (step app (step app s .send) .subscribe) := by
  obtain ⟨hb, _, hlt, _⟩ := h.read backlog hcl
  have hsend : step app s .send = { s with inHand := none, client := .replayed backlog } := by
    simp [step, hh, hcl, Client.receive]
  have hnot : e ∉ backlog := by
    intro he
    rw [hb] at he
    exact absurd (hlt e (List.mem_filter.mp he).1) (Nat.not_lt.mpr hn)
  have hsub : step app (step app s .send) .subscribe
      = { s with inHand := none, client := .streaming backlog [] [] } := by
    rw [hsend]
    rfl
  refine ⟨by rw [hsend]; rfl, fun hf => ?_⟩
  rw [hsub] at hf
  rcases hf.complete backlog [] [] rfl e ⟨ha, hs, Or.inr ⟨(h.logged.hand e hh).1, hn⟩⟩ with h1 | h1
  · have hzero : backlog.count e = 0 := List.count_eq_zero.mpr hnot
    simp [received, hzero] at h1
  · simp at h1

/--
**When a watching client gets every event once, in order.**

However the steps of the fan-in task and of the handler interleave, and whatever
the capacity of the ring: the client is served faithfully exactly if it never
subscribes while an event it has read from the ring is still to be sent, and no
event it wants and has not read is sent between its reading the ring and its
subscription.
-/
theorem servesFaithfully_iff (app : String) (cap : Nat) (run : List Event) :
    ServesFaithfully app cap run
      ↔ Each (step app) (Uncrossed app) (State.new cap) run := by
  refine ⟨?_, ?_⟩
  · intro h
    -- up to the first steps that cross, everything fits together
    induction run using List.reverseRecOn with
    | nil => exact each_nil
    | append_singleton run e ih =>
        have hrun : Each (step app) (Uncrossed app) (State.new cap) run :=
          ih fun pre hp => h pre (hp.trans (List.prefix_append _ _))
        have hjoined := exec_inv_of_each joined_step (joined_new cap) hrun
        refine each_snoc.mpr ⟨hrun, ?_⟩
        have hlast := (h (run ++ [e]) (List.prefix_refl _)).2
        rw [exec_snoc] at hlast
        cases e with
        | subscribe =>
            intro backlog hcl evt hh he
            obtain ⟨hset, hbad⟩ := duplicated_of_crossed hjoined hcl hh he
            exact hbad (hlast _ hset)
        | send =>
            intro backlog hcl evt hh ha hs
            by_contra hn
            obtain ⟨hset, hbad⟩ := lost_of_crossed hjoined hcl hh ha hs (Nat.not_lt.mp hn)
            exact hbad (hlast _ hset)
        | append sys => trivial
        | replay lastEventId => trivial
        | deliver => trivial
  · intro h pre hp
    have hjoined := exec_inv_of_each joined_step (joined_new cap) (h.of_prefix hp)
    exact ⟨hjoined.faithful,
      fun e he => (joined_step _ e hjoined (uncrossed_settling he)).faithful⟩

/-- An event that falls between the two steps of the handler is lost; one that is in hand
throughout arrives twice. -/
theorem crossed_steps_break :
    ¬ Faithful "a" (exec (step "a") (State.new 64)
      [.replay none, .append (.manualSyncRequested "a"), .send, .subscribe]) ∧
    ¬ Faithful "a" (exec (step "a") (State.new 64)
      [.append (.manualSyncRequested "a"), .replay none, .subscribe, .send]) := by
  refine ⟨?_, ?_⟩
  · intro h
    have hc := h.complete [] [] [] rfl ⟨1, "a", "sync_requested", .syncRequested "a"⟩
      ⟨rfl, by decide, Or.inr ⟨by decide, by decide⟩⟩
    revert hc
    decide
  · intro h
    have ho := h.ordered
    revert ho
    decide

end SynchrotronCD.Watch
