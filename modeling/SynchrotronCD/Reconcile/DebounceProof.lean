import SynchrotronCD.Reconcile.Debounce

/-!
# When the debouncer fires, and what

Two groups of results. The first is about time: a timer should find its app quiet
for a whole window. It does as long as its generation tells it apart from the
timers before it; but the numbering restarts with every entry, so a timer left
over from a flushed or fired entry can carry the number of a newer event
(`robust_iff`).

The second holds in every run: whatever the timers do, an entry is fired exactly
once, with the last trigger it was given, and the timer of the last event of an
app leaves nothing of that app pending (`delivers_exec`).
-/

namespace SynchrotronCD.Debouncer

open Lib

variable {window : Nat}

/-! ## What each step does -/

/-- **The two ways a timer's section can end**: it is stale, or it fires. -/
theorem fireIfCurrent_cases (s : State) (app : String) (generation : UInt64) :
    ((∀ e, s.pending.lookup app = some e → e.generation ≠ generation)
      ∧ fireIfCurrent s app generation = s)
    ∨ ∃ e, s.pending.lookup app = some e ∧ e.generation = generation
      ∧ fireIfCurrent s app generation = { s with
          pending := s.pending.erase app
          log := s.log ++ [fire s.now .timer app e] } := by
  unfold fireIfCurrent
  cases he : s.pending.lookup app with
  | none => exact Or.inl ⟨by simp, rfl⟩
  | some e =>
      by_cases hg : e.generation = generation
      · exact Or.inr ⟨e, rfl, hg, by simp [hg]⟩
      · exact Or.inl ⟨fun x hx => by rw [← Option.some.inj hx]; exact hg, by simp [hg]⟩

/-- **The three ways a timer can run**: it sleeps on, finds itself stale, or fires. -/
theorem expire_cases (s : State) (timer : Timer) :
    expire s timer = s
    ∨ (timer ∈ s.timers ∧ timer.deadline ≤ s.now
      ∧ (∀ e, s.pending.lookup timer.app = some e → e.generation ≠ timer.generation)
      ∧ expire s timer = { s with timers := s.timers.erase timer })
    ∨ ∃ e, timer ∈ s.timers ∧ timer.deadline ≤ s.now
      ∧ s.pending.lookup timer.app = some e ∧ e.generation = timer.generation
      ∧ expire s timer = { s with
          timers := s.timers.erase timer
          pending := s.pending.erase timer.app
          log := s.log ++ [fire s.now .timer timer.app e] } := by
  unfold expire
  split
  · rename_i h
    rcases fireIfCurrent_cases { s with timers := s.timers.erase timer } timer.app
      timer.generation with ⟨hstale, heq⟩ | ⟨e, he, hg, heq⟩
    · exact Or.inr (Or.inl ⟨h.1, h.2, hstale, heq⟩)
    · exact Or.inr (Or.inr ⟨e, h.1, h.2, he, hg, heq⟩)
  · exact Or.inl rfl

@[simp] theorem bumped_trigger (s : State) (app : String) (trigger : Trigger) :
    (s.bumped app trigger).trigger = trigger := rfl

/-! ## Time -/

/-- A fire by a timer comes a whole window after every event of its app. -/
def FiresQuiet (window : Nat) (pre : List LogEvent) : LogEvent → Prop
  | .fired app _ time _ .timer =>
      ∀ trigger t n, .accepted app trigger t n ∈ pre → t + window ≤ time
  | _ => True

/-- **Every fire of a run, except by a flush, finds its app quiet for a window.** -/
def Punctual (window : Nat) (s : State) : Prop := Along (FiresQuiet window) s.log

/-- The earliest instant at which a timer can still run. -/
def Timer.earliest (t : Timer) (s : State) : Nat := max s.now t.deadline

/-- One more than the generation of the pending entry; 1 if there is none. -/
def State.nextGeneration (s : State) (app : String) : UInt64 :=
  ((s.pending.lookup app).map PendingEntry.generation).getD 0 + 1

/-- No timer that carries the next generation of the app can run too early for its next event. -/
def TellsApart (window : Nat) (s : State) : Event → Prop
  | .enqueue app _ => ∀ t ∈ s.timers, t.app = app →
      t.generation = s.nextGeneration app → s.now + window ≤ t.earliest s
  | _ => True

theorem bumped_generation (s : State) (app : String) (trigger : Trigger) :
    (s.bumped app trigger).generation = s.nextGeneration app := by
  unfold State.bumped State.nextGeneration
  cases s.pending.lookup app <;> rfl

/-- Events that are no calls into the debouncer: time passes and timers run. -/
def Idle : Event → Prop
  | .expire _ | .tick _ => True
  | .enqueue _ _ | .flushNow => False

/-- The run is punctual, and stays so however the timers run from any of its points on. -/
def Robust (window : Nat) (run : List Event) : Prop :=
  ∀ pre, pre <+: run → ∀ idle : List Event, (∀ e ∈ idle, Idle e) →
    Punctual window (exec (step window) State.new (pre ++ idle))

/-- A timer that would fire cannot run within the window of an event of its app. -/
structure Timed (window : Nat) (s : State) : Prop where
  past : ∀ app trigger t n, .accepted app trigger t n ∈ s.log → t ≤ s.now
  live : ∀ timer ∈ s.timers, ∀ e, s.pending.lookup timer.app = some e →
    e.generation = timer.generation →
    ∀ trigger t n, .accepted timer.app trigger t n ∈ s.log → t + window ≤ timer.earliest s
  punctual : Punctual window s

theorem timed_new : Timed window State.new where
  past := by intro app trigger t n h; simp [State.new] at h
  live := by intro timer h; simp [State.new] at h
  punctual := along_nil

/-- A log that grew by fires holds the same events. -/
theorem accepted_of_fired {log new : List LogEvent} (h : ∀ e ∈ new, ∃ a tr t n c,
      e = .fired a tr t n c) {app : String} {trigger : Trigger} {t n : Nat}
    (hm : .accepted app trigger t n ∈ log ++ new) : .accepted app trigger t n ∈ log := by
  rcases List.mem_append.mp hm with hm | hm
  · exact hm
  · obtain ⟨a, tr, t', n', c, heq⟩ := h _ hm
    exact LogEvent.noConfusion heq

theorem timed_enqueue {s : State} (h : Timed window s) {app : String} {trigger : Trigger}
    (hc : TellsApart window s (.enqueue app trigger)) :
    Timed window (enqueue window s app trigger) where
  past := by
    intro a tr t n hm
    rcases List.mem_append.mp hm with hm | hm
    · exact h.past a tr t n hm
    · injection List.mem_singleton.mp hm with _ _ ht _
      exact Nat.le_of_eq ht
  live := by
    intro timer ht e he hg tr t n hm
    show t + window ≤ max s.now timer.deadline
    by_cases happ : timer.app = app
    · -- a timer that carries the new generation: the new one, or one that was told apart
      have hpast : t ≤ s.now := by
        rcases List.mem_append.mp hm with hm | hm
        · exact h.past _ _ _ _ hm
        · injection List.mem_singleton.mp hm with _ _ ht _
          exact Nat.le_of_eq ht
      have he' : s.bumped app trigger = e := by
        have hl : (s.pending.insert app (s.bumped app trigger)).lookup timer.app = some e := he
        rw [happ, AList.lookup_insert] at hl
        exact Option.some.inj hl
      rcases List.mem_append.mp ht with ht | ht
      · have := hc timer ht happ (by rw [← hg, ← he', bumped_generation])
        unfold Timer.earliest at this
        omega
      · rw [List.mem_singleton.mp ht]
        show t + window ≤ max s.now (s.now + window)
        omega
    · rcases List.mem_append.mp ht with ht | ht
      · have hl : (s.pending.insert app (s.bumped app trigger)).lookup timer.app = some e := he
        rw [AList.lookup_insert_ne happ] at hl
        rcases List.mem_append.mp hm with hm | hm
        · exact h.live timer ht e hl hg tr t n hm
        · injection List.mem_singleton.mp hm with ha _ _ _
          exact absurd ha happ
      · rw [List.mem_singleton.mp ht] at happ
        exact absurd rfl happ
  punctual := h.punctual.snoc trivial

theorem timed_flush {s : State} (h : Timed window s) : Timed window (flushNow s) := by
  have hfired : ∀ e ∈ s.pending.entries.map (fun e => fire s.now .flush e.1 e.2),
      ∃ a tr t n c, e = .fired a tr t n c := by
    intro e he
    obtain ⟨x, _, rfl⟩ := List.mem_map.mp he
    exact ⟨_, _, _, _, _, rfl⟩
  refine ⟨fun a tr t n hm => h.past a tr t n (accepted_of_fired hfired hm), ?_, ?_⟩
  · intro timer _ e he
    simp [flushNow] at he
  · refine h.punctual.append ?_
    intro pre e post heq
    have hmem : e ∈ s.pending.entries.map (fun e => fire s.now .flush e.1 e.2) := by
      rw [heq]; simp
    obtain ⟨x, _, rfl⟩ := List.mem_map.mp hmem
    trivial

theorem timed_expire {s : State} (h : Timed window s) (timer : Timer) :
    Timed window (expire s timer) := by
  rcases expire_cases s timer with heq | ⟨_, _, _, heq⟩ | ⟨e, hmem, hdl, he, hg, heq⟩
  · rw [heq]; exact h
  · rw [heq]
    exact ⟨h.past, fun t ht => h.live t (List.mem_of_mem_erase ht), h.punctual⟩
  · rw [heq]
    have hfired : ∀ x ∈ [fire s.now .timer timer.app e], ∃ a tr t n c, x = .fired a tr t n c := by
      intro x hx
      exact ⟨_, _, _, _, _, List.mem_singleton.mp hx⟩
    refine ⟨fun a tr t n hm => h.past a tr t n (accepted_of_fired hfired hm), ?_, ?_⟩
    · intro t ht x hx hgx tr time n hm
      by_cases happ : t.app = timer.app
      · rw [happ] at hx
        simp at hx
      · have hx' : s.pending.lookup t.app = some x := by
          have hl : (s.pending.erase timer.app).lookup t.app = some x := hx
          rwa [AList.lookup_erase_ne happ] at hl
        exact h.live t (List.mem_of_mem_erase ht) x hx' hgx tr time n (accepted_of_fired hfired hm)
    · refine h.punctual.snoc ?_
      intro tr t n hm
      have := h.live timer hmem e he hg tr t n hm
      unfold Timer.earliest at this
      omega

/-- **A step whose event can be told apart keeps the timers in time.** -/
theorem timed_step (s : State) (e : Event) (h : Timed window s) (hc : TellsApart window s e) :
    Timed window (step window s e) := by
  cases e with
  | enqueue app trigger => exact timed_enqueue h hc
  | flushNow => exact timed_flush h
  | expire timer => exact timed_expire h timer
  | tick ticks =>
      refine ⟨fun a tr t n hm => Nat.le_add_right_of_le (h.past a tr t n hm), ?_, h.punctual⟩
      intro timer ht e he hg tr t n hm
      have := h.live timer ht e he hg tr t n hm
      show t + window ≤ max (s.now + ticks) timer.deadline
      unfold Timer.earliest at this
      omega

theorem timed_exec {run : List Event} (h : Each (step window) (TellsApart window) State.new run) :
    Timed window (exec (step window) State.new run) :=
  exec_inv_of_each timed_step timed_new h

/-- Time and timers cannot confuse anything: only an enqueue hands out a generation. -/
theorem tellsApart_idle {s : State} {e : Event} (h : Idle e) : TellsApart window s e := by
  cases e with
  | enqueue app trigger => exact absurd h id
  | flushNow => trivial
  | expire timer => trivial
  | tick ticks => trivial

/-- **An event that is not told apart is fired early** by the timer it is confused with, once
that timer runs. -/
theorem early_fire {s : State} {app : String} {trigger : Trigger}
    (h : ¬ TellsApart window s (.enqueue app trigger)) :
    ∃ idle : List Event, (∀ e ∈ idle, Idle e) ∧
      ¬ Punctual window (exec (step window) (enqueue window s app trigger) idle) := by
  simp only [TellsApart, not_forall, not_le] at h
  obtain ⟨timer, hmem, happ, hg, hearly⟩ := h
  rw [← bumped_generation s app trigger] at hg
  unfold Timer.earliest at hearly
  -- wait until the old timer is due, and let it run
  refine ⟨[.tick (timer.deadline - s.now), .expire timer], by simp [Idle], ?_⟩
  intro hp
  have hin : timer ∈ s.timers ++ [⟨app, (s.bumped app trigger).generation, s.now + window,
      s.events⟩] := List.mem_append_left _ hmem
  have hdue : timer.deadline ≤ s.now + (timer.deadline - s.now) := by omega
  have hl : (s.pending.insert app (s.bumped app trigger)).lookup timer.app
      = some (s.bumped app trigger) := by rw [happ, AList.lookup_insert]
  have hlog : (exec (step window) (enqueue window s app trigger)
      [.tick (timer.deadline - s.now), .expire timer]).log
      = (s.log ++ [.accepted app trigger s.now s.events])
        ++ [fire (s.now + (timer.deadline - s.now)) .timer timer.app (s.bumped app trigger)] := by
    simp [step, expire, enqueue, fireIfCurrent, hin, hdue, hl, hg]
  have hquiet := hp _ _ [] hlog
  have := hquiet trigger s.now s.events (by rw [happ]; simp)
  omega

/--
**When the debouncer is punctual.**

A run of calls is punctual, whatever its timers do from any point on, exactly when
no event is given a generation that a timer of its app still carries which can run
before the event is a window old.
-/
theorem robust_iff (window : Nat) (run : List Event) :
    Robust window run ↔ Each (step window) (TellsApart window) State.new run := by
  refine ⟨?_, ?_⟩
  · intro h pre e hp
    have hpre : pre <+: run := (List.prefix_append _ _).trans hp
    cases e with
    | enqueue app trigger =>
        by_contra hc
        obtain ⟨idle, hidle, hearly⟩ := early_fire hc
        refine hearly ?_
        have := h (pre ++ [.enqueue app trigger]) hp idle hidle
        rwa [exec_append, exec_snoc] at this
    | flushNow => trivial
    | expire timer => trivial
    | tick ticks => trivial
  · intro h pre hp idle hidle
    have hall : Each (step window) (TellsApart window) State.new (pre ++ idle) :=
      (h.of_prefix hp).append_of_forall fun _ e he => tellsApart_idle (hidle e he)
    exact (timed_exec hall).punctual

/-- A flushed burst leaves its timer behind; the next event is given the same generation, and is
fired after less than half a window. -/
theorem leftover_timer_fires_early :
    ¬ Punctual 500 (exec (step 500) State.new
      [.enqueue "a" .webhook, .flushNow, .tick 300, .enqueue "a" .poll, .tick 200,
        .expire ⟨"a", 1, 500, 0⟩]) := by
  intro h
  have hquiet := h [.accepted "a" .webhook 0 0, .fired "a" .webhook 0 0 .flush,
    .accepted "a" .poll 300 1] (.fired "a" .poll 500 1 .timer) [] (by decide)
  have := hquiet .poll 300 1 (by decide)
  omega

/-! ## One history -/

theorem sinceFire_snoc (app : String) (log : List LogEvent) (e : LogEvent) :
    sinceFire app (log ++ [e]) = match e with
      | .accepted a trigger _ event =>
          if a = app then sinceFire app log ++ [(event, trigger)] else sinceFire app log
      | .fired a _ _ _ _ => if a = app then [] else sinceFire app log := by
  cases e <;> simp [sinceFire, List.foldl_append]

theorem lastEvent_snoc (app : String) (log : List LogEvent) (e : LogEvent) :
    lastEvent app (log ++ [e]) = match e with
      | .accepted a _ _ event => if a = app then some event else lastEvent app log
      | .fired _ _ _ _ _ => lastEvent app log := by
  cases e <;> simp [lastEvent, List.foldl_append]

@[simp] theorem firesOf_append (n : Nat) (log new : List LogEvent) :
    firesOf n (log ++ new) = firesOf n log ++ firesOf n new := List.filterMap_append

/-- The fires of a list of entries, as `flush_now` makes them. -/
def flushed (now : Nat) (l : List (Sigma fun _ : String => PendingEntry)) : List LogEvent :=
  l.map fun e => fire now .flush e.1 e.2

theorem flushed_snoc (now : Nat) (l : List (Sigma fun _ : String => PendingEntry))
    (e : Sigma fun _ : String => PendingEntry) :
    flushed now (l ++ [e]) = flushed now l ++ [fire now .flush e.1 e.2] := by simp [flushed]

/-- After a flush an app has nothing open if its entry was fired, or nothing was open. -/
theorem sinceFire_flushed {app : String} (now : Nat) (log : List LogEvent)
    (l : List (Sigma fun _ : String => PendingEntry)) :
    sinceFire app (log ++ flushed now l) = if app ∈ l.keys then [] else sinceFire app log := by
  induction l using List.reverseRecOn with
  | nil => simp [flushed]
  | append_singleton l e ih =>
      rw [flushed_snoc, ← List.append_assoc, sinceFire_snoc, ih]
      have hkeys : app ∈ (l ++ [e]).keys ↔ app ∈ l.keys ∨ e.1 = app := by
        rw [List.keys, List.map_append, List.mem_append, List.map_singleton, List.mem_singleton]
        exact or_congr_right eq_comm
      by_cases he : e.1 = app
      · simp only [hkeys, fire, he]
        simp
      · by_cases hl : app ∈ l.keys
        · simp only [hkeys, fire, he, hl]
          simp
        · simp only [hkeys, fire, he, hl]
          simp

/-- Weighs an entry by whether it is number `n`. -/
def isEntry (n : Nat) (e : PendingEntry) : Nat := if e.entry = n then 1 else 0

theorem firesOf_flushed (n now : Nat) (l : List (Sigma fun _ : String => PendingEntry)) :
    (firesOf n (flushed now l)).length = listWeight (isEntry n) l := by
  induction l with
  | nil => rfl
  | cons e l ih =>
      have hcons : flushed now (e :: l) = [fire now .flush e.1 e.2] ++ flushed now l := rfl
      rw [hcons, firesOf_append, List.length_append, ih]
      by_cases he : e.2.entry = n <;> simp [firesOf, fire, he, listWeight, isEntry]

/-! ## The invariant of delivery -/

/-- A fire carries the trigger of the last event accepted since the fire before it. -/
def CarriesLast (pre : List LogEvent) : LogEvent → Prop
  | .fired app trigger _ _ _ => (sinceFire app pre).getLast?.map Prod.snd = some trigger
  | .accepted _ _ _ _ => True

/-- The pending entries, the outstanding timers and the history agree. -/
structure Kept (s : State) : Prop where
  /-- An entry is pending exactly while events wait for a fire, and holds the last trigger. -/
  waiting : ∀ a, (s.pending.lookup a).map PendingEntry.trigger
    = (sinceFire a s.log).getLast?.map Prod.snd
  /-- A pending entry has the timer of the app's last event ahead of it. -/
  armed : ∀ a e, s.pending.lookup a = some e → ∃ t ∈ s.timers, t.app = a ∧
    t.generation = e.generation ∧ lastEvent a s.log = some t.event
  carried : Along CarriesLast s.log
  /-- An entry is pending or was fired, and one of them once. -/
  once : ∀ n, (firesOf n s.log).length + weight (isEntry n) s.pending
    = if n < s.entries then 1 else 0

theorem kept_new : Kept State.new where
  waiting := by intro a; rfl
  armed := by intro a e h; simp [State.new] at h
  carried := along_nil
  once := by intro n; rfl

/-- An event gives its application a new entry, with the next number, or leaves it the one that
it has. -/
theorem weight_bumped (s : State) (app : String) (trigger : Trigger) (n : Nat) :
    weight (isEntry n) (s.pending.insert app (s.bumped app trigger))
      = weight (isEntry n) s.pending + if app ∉ s.pending ∧ s.entries = n then 1 else 0 := by
  have hw := weight_insert_add (isEntry n) app (s.bumped app trigger) s.pending
  cases he : s.pending.lookup app with
  | none =>
      have hmem : app ∉ s.pending := AList.lookup_eq_none.mp he
      have hnew : isEntry n (s.bumped app trigger) = if s.entries = n then 1 else 0 := by
        simp [isEntry, State.bumped, he]
      rw [he, hnew] at hw
      simp only [Option.map_none, Option.getD_none, Nat.add_zero] at hw
      simp only [hw, hmem, not_false_eq_true, true_and]
      exact Nat.add_comm _ _
  | some e =>
      have hmem : app ∈ s.pending := AList.lookup_isSome.mp (by rw [he]; rfl)
      have hsame : isEntry n (s.bumped app trigger) = isEntry n e := by
        simp [isEntry, State.bumped, he]
      rw [he, hsame] at hw
      simp only [Option.map_some, Option.getD_some] at hw
      rw [if_neg fun h => h.1 hmem]
      omega

theorem kept_enqueue {s : State} (h : Kept s) (app : String) (trigger : Trigger) :
    Kept (enqueue window s app trigger) where
  waiting := by
    intro a
    show ((s.pending.insert app (s.bumped app trigger)).lookup a).map _
      = (sinceFire a (s.log ++ [_])).getLast?.map _
    rw [sinceFire_snoc]
    by_cases ha : app = a
    · rw [← ha, AList.lookup_insert]
      simp
    · rw [AList.lookup_insert_ne (Ne.symm ha)]
      simp [ha, h.waiting a]
  armed := by
    intro a e he
    show ∃ t ∈ s.timers ++ [_], _ ∧ _ ∧ lastEvent a (s.log ++ [_]) = _
    have hl : (s.pending.insert app (s.bumped app trigger)).lookup a = some e := he
    rw [lastEvent_snoc]
    by_cases ha : app = a
    · -- the timer just spawned
      rw [← ha, AList.lookup_insert] at hl
      exact ⟨_, List.mem_append_right _ (List.mem_singleton.mpr rfl), ha,
        by rw [← Option.some.inj hl], by simp [ha]⟩
    · rw [AList.lookup_insert_ne (Ne.symm ha)] at hl
      obtain ⟨t, ht, hta, hg, hlast⟩ := h.armed a e hl
      exact ⟨t, List.mem_append_left _ ht, hta, hg, by simpa [ha] using hlast⟩
  carried := h.carried.snoc trivial
  once := by
    intro n
    have hfires : firesOf n (s.log ++ [.accepted app trigger s.now s.events]) = firesOf n s.log := by
      rw [firesOf_append]
      exact List.append_nil _
    have hold := h.once n
    show (firesOf n (s.log ++ [_])).length + weight (isEntry n) (s.pending.insert app _)
      = if n < (if app ∈ s.pending then s.entries else s.entries + 1) then 1 else 0
    rw [hfires, weight_bumped, ← Nat.add_assoc, hold]
    by_cases hmem : app ∈ s.pending
    · simp [hmem]
    · simp only [hmem, not_false_eq_true, true_and, if_false]
      -- an app without an entry gets the next one
      rcases Nat.lt_trichotomy n s.entries with hlt | heq | hgt
      · rw [if_pos hlt, if_neg (by omega), if_pos (by omega)]
      · rw [if_neg (by omega), if_pos (by omega), if_pos (by omega)]
      · rw [if_neg (by omega), if_neg (by omega), if_neg (by omega)]

theorem kept_flush {s : State} (h : Kept s) : Kept (flushNow s) where
  waiting := by
    intro a
    show ((∅ : HashMap String PendingEntry).lookup a).map _
      = (sinceFire a (s.log ++ flushed s.now s.pending.entries)).getLast?.map _
    rw [sinceFire_flushed]
    by_cases ha : a ∈ s.pending.entries.keys
    · simp [ha]
    · -- what is not pending had nothing open
      have hnone : s.pending.lookup a = none := AList.lookup_eq_none.mpr ha
      have hw := h.waiting a
      rw [hnone] at hw
      rw [if_neg ha, ← hw]
      rfl
  armed := by intro a e he; simp [flushNow] at he
  carried := by
    refine h.carried.append ?_
    intro pre e post heq
    obtain ⟨l, rest, hl, hpre, hrest⟩ := List.map_eq_append_iff.mp heq
    obtain ⟨x, rest', rfl, rfl, -⟩ := List.map_eq_cons_iff.mp hrest
    -- an app has one entry, so none of the fires before was its own
    have hnot : x.1 ∉ l.keys := by
      have hnd := s.pending.nodupKeys
      rw [hl, List.nodupKeys_middle, List.nodupKeys_cons, List.keys_append] at hnd
      intro hm
      exact hnd.1 (List.mem_append_left _ hm)
    have hlook : s.pending.lookup x.1 = some x.2 :=
      AList.mem_lookup_iff.mpr (by rw [hl]; simp)
    have hw := h.waiting x.1
    rw [hlook] at hw
    show (sinceFire x.1 (s.log ++ pre)).getLast?.map Prod.snd = some x.2.trigger
    rw [← hpre]
    have := @sinceFire_flushed x.1 s.now s.log l
    unfold flushed at this
    rw [this, if_neg hnot, ← hw]
    rfl
  once := by
    intro n
    show (firesOf n (s.log ++ flushed s.now s.pending.entries)).length + _ = _
    rw [firesOf_append, List.length_append, firesOf_flushed]
    exact h.once n

theorem kept_expire {s : State} (h : Kept s) (timer : Timer) : Kept (expire s timer) := by
  rcases expire_cases s timer with heq | ⟨_, _, hstale, heq⟩ | ⟨e, hmem, _, he, hg, heq⟩
  · rw [heq]; exact h
  · -- a stale timer is not the one an entry is waiting for
    rw [heq]
    refine ⟨h.waiting, ?_, h.carried, h.once⟩
    intro a e he
    obtain ⟨t, ht, hta, hg, hlast⟩ := h.armed a e he
    have hne : t ≠ timer := by
      intro hx
      subst hx
      exact hstale e (by rw [hta]; exact he) hg.symm
    exact ⟨t, (List.mem_erase_of_ne hne).mpr ht, hta, hg, hlast⟩
  · rw [heq]
    refine ⟨?_, ?_, ?_, ?_⟩
    · intro a
      show ((s.pending.erase timer.app).lookup a).map _
        = (sinceFire a (s.log ++ [fire s.now .timer timer.app e])).getLast?.map _
      rw [sinceFire_snoc]
      by_cases ha : timer.app = a
      · simp [fire, ha]
      · rw [AList.lookup_erase_ne (Ne.symm ha)]
        simp [fire, ha, h.waiting a]
    · intro a x hx
      have hl : (s.pending.erase timer.app).lookup a = some x := hx
      by_cases ha : a = timer.app
      · rw [ha, AList.lookup_erase] at hl
        simp at hl
      · rw [AList.lookup_erase_ne ha] at hl
        obtain ⟨t, ht, hta, hgt, hlast⟩ := h.armed a x hl
        have hne : t ≠ timer := by
          intro hx
          rw [hx] at hta
          exact ha hta.symm
        refine ⟨t, (List.mem_erase_of_ne hne).mpr ht, hta, hgt, ?_⟩
        show lastEvent a (s.log ++ [_]) = _
        rw [lastEvent_snoc]
        exact hlast
    · refine h.carried.snoc ?_
      have hw := h.waiting timer.app
      rw [he] at hw
      exact hw.symm
    · intro n
      have hw := weight_erase (isEntry n) timer.app s.pending
      have hold := h.once n
      rw [he] at hw
      show (firesOf n (s.log ++ [fire s.now .timer timer.app e])).length
        + weight (isEntry n) (s.pending.erase timer.app) = if n < s.entries then 1 else 0
      rw [firesOf_append, List.length_append]
      have hone : (firesOf n [fire s.now .timer timer.app e]).length = isEntry n e := by
        by_cases hn : e.entry = n <;> simp [firesOf, fire, hn, isEntry]
      rw [hone]
      simp only [Option.map_some, Option.getD_some] at hw
      omega

theorem kept_step (s : State) (e : Event) (h : Kept s) : Kept (step window s e) := by
  cases e with
  | enqueue app trigger => exact kept_enqueue h app trigger
  | flushNow => exact kept_flush h
  | expire timer => exact kept_expire h timer
  | tick ticks => exact ⟨h.waiting, h.armed, h.carried, h.once⟩

theorem kept_exec (window : Nat) (run : List Event) :
    Kept (exec (step window) State.new run) := exec_inv kept_step kept_new run

/-! ## What the debouncer delivers -/

/-- Some entry of the history is a fire of `app`. -/
def FiredIn (app : String) (log : List LogEvent) : Prop :=
  ∃ trigger time entry cause, .fired app trigger time entry cause ∈ log

/-- The fire that follows an event waits for the timer that event spawned, and no other. -/
def FollowedByOwnTimer (s : State) : Prop :=
  ∀ pre app trigger time n post, s.log = pre ++ .accepted app trigger time n :: post →
    (∀ t ∈ s.timers, t.event ≠ n) → FiredIn app post

/-- What every state of a run shows of its entries, fires and timers. -/
structure Delivers (s : State) : Prop where
  /-- Each entry ever created is still pending, or was removed by exactly one fire. -/
  once : ∀ n < s.entries,
    (firesOf n s.log = [] ∧ ∃ app e, s.pending.lookup app = some e ∧ e.entry = n) ∨
    ∃ cause, firesOf n s.log = [cause] ∧
      ∀ app e, s.pending.lookup app = some e → e.entry ≠ n
  /-- Once the timer of an app's last event has run, every event of the app was followed by a
  fire of it. -/
  followed : ∀ app, (∀ t ∈ s.timers, t.app = app → lastEvent app s.log ≠ some t.event) →
    ∀ pre trigger time n post, s.log = pre ++ .accepted app trigger time n :: post →
      FiredIn app post
  /-- A fire carries the trigger of the last event of its app since the fire before it. -/
  carried : Along CarriesLast s.log
  /-- When every timer has run, nothing is pending. -/
  settled : s.timers = [] → s.pending = ∅

theorem listWeight_pos {n : Nat} {l : List (Sigma fun _ : String => PendingEntry)}
    (h : 0 < listWeight (isEntry n) l) : ∃ x ∈ l, x.2.entry = n := by
  induction l with
  | nil => simp [listWeight] at h
  | cons x l ih =>
      by_cases hx : x.2.entry = n
      · exact ⟨x, List.mem_cons_self, hx⟩
      · have hrest : 0 < listWeight (isEntry n) l := by
          simpa [listWeight, isEntry, hx] using h
        obtain ⟨y, hy, hn⟩ := ih hrest
        exact ⟨y, List.mem_cons_of_mem _ hy, hn⟩

/-- Nothing is open for an app only if each of its events was followed by a fire. -/
theorem firedIn_of_sinceFire {app : String} {pre post : List LogEvent} {trigger : Trigger}
    {time n : Nat} (h : sinceFire app (pre ++ .accepted app trigger time n :: post) = []) :
    FiredIn app post := by
  induction post using List.reverseRecOn with
  | nil =>
      rw [sinceFire_snoc] at h
      simp at h
  | append_singleton post e ih =>
      have hsplit : pre ++ .accepted app trigger time n :: (post ++ [e])
          = (pre ++ .accepted app trigger time n :: post) ++ [e] := by simp
      rw [hsplit, sinceFire_snoc] at h
      cases e with
      | accepted a tr t m =>
          dsimp only at h
          split at h
          · simp at h
          · obtain ⟨tr', t', m', c, hm⟩ := ih h
            exact ⟨tr', t', m', c, List.mem_append_left _ hm⟩
      | fired a tr t m c =>
          by_cases ha : a = app
          · subst ha
            exact ⟨tr, t, m, c, List.mem_append_right _ (List.mem_singleton.mpr rfl)⟩
          · simp only [ha, if_false] at h
            obtain ⟨tr', t', m', c', hm⟩ := ih h
            exact ⟨tr', t', m', c', List.mem_append_left _ hm⟩

theorem Kept.delivers {s : State} (h : Kept s) : Delivers s where
  once := by
    intro n hn
    have hone := h.once n
    rw [if_pos hn] at hone
    rcases Nat.eq_zero_or_pos (weight (isEntry n) s.pending) with hz | hpos
    · -- it was fired, and once
      have hlen : (firesOf n s.log).length = 1 := by omega
      obtain ⟨cause, hc⟩ := List.length_eq_one_iff.mp hlen
      refine Or.inr ⟨cause, hc, ?_⟩
      intro app e he hen
      have hw := weight_erase (isEntry n) app s.pending
      rw [he] at hw
      simp [isEntry, hen] at hw
      omega
    · obtain ⟨x, hx, hxn⟩ := listWeight_pos hpos
      refine Or.inl ⟨List.length_eq_zero_iff.mp (by omega), x.1, x.2, ?_, hxn⟩
      exact AList.mem_lookup_iff.mpr hx
  followed := by
    intro app hran pre trigger time n post hlog
    -- without its last timer the app has no entry, and so nothing open
    have hnone : s.pending.lookup app = none := by
      cases he : s.pending.lookup app with
      | none => rfl
      | some e =>
          obtain ⟨t, ht, hta, _, hlast⟩ := h.armed app e he
          exact absurd hlast (hran t ht hta)
    have hw := h.waiting app
    rw [hnone] at hw
    have hopen : sinceFire app s.log = [] := by
      cases hs : (sinceFire app s.log).getLast? with
      | none => exact List.getLast?_eq_none_iff.mp hs
      | some x => rw [hs] at hw; simp at hw
    rw [hlog] at hopen
    exact firedIn_of_sinceFire hopen
  carried := h.carried
  settled := by
    intro hnone
    apply AList.ext
    rw [AList.empty_entries, List.eq_nil_iff_forall_not_mem]
    intro x hx
    obtain ⟨t, ht, _⟩ := h.armed x.1 x.2 (AList.mem_lookup_iff.mpr hx)
    rw [hnone] at ht
    simp at ht

/--
**Every burst is delivered, once.**

Whatever the window, and in whatever order events arrive, timers run and flushes
come: each entry is fired exactly once, with the last trigger given to it; an
event has been followed by a fire once the timer of its app's last event has run;
and with no timer left nothing is pending.
-/
theorem delivers_exec (window : Nat) (run : List Event) :
    Delivers (exec (step window) State.new run) := (kept_exec window run).delivers

/-- The timer of the first of two events has run and nothing is fired: the burst waits for the timer
of the second. -/
theorem superseded_timer_fires_nothing :
    ¬ FollowedByOwnTimer (exec (step 500) State.new
      [.enqueue "a" .webhook, .tick 300, .enqueue "a" .poll, .tick 200,
        .expire ⟨"a", 1, 500, 0⟩]) := by
  intro h
  obtain ⟨tr, time, entry, cause, hm⟩ := h [] "a" .webhook 0 0 [.accepted "a" .poll 300 1]
    (by decide) (by decide)
  simp at hm

end SynchrotronCD.Debouncer
