import SynchrotronCD.Lib.Runs

/-!
# A value reloaded from a file on a signal

A value has been loaded from a file. A listener waits for a signal, reads the file again and,
if that loads, puts the value in place of the one before; else it leaves it. The file may change
at any time, and signals that arrive while one is waiting are one.

What is active is what the contents read so far have left (`Follows`). No signal is lost: once
the listener is at rest it has read the file after the last signal (`signal_heeded`).
-/

namespace Lib

/-- Where the listener is. -/
inductive Listener (ε α : Type) where
  | waiting
  /-- The signal is taken, and the file not read yet. -/
  | woken
  | loaded (result : Except ε α)

structure Reloading (κ ε α : Type) where
  file : κ
  active : α
  /-- A signal has arrived that the listener has not taken. -/
  signalled : Bool
  listener : Listener ε α
  /-- The contents read so far, in their order. -/
  reads : List κ

inductive ReloadEvent (κ : Type) where
  | edit (content : κ)
  | signal
  | wake
  | read
  | finish

namespace Reloading

variable {κ ε α : Type} (load : κ → Except ε α)

def start (file : κ) (active : α) : Reloading κ ε α := ⟨file, active, false, .waiting, []⟩

/-- The listener takes a signal. -/
def wake (s : Reloading κ ε α) : Reloading κ ε α :=
  match s.listener, s.signalled with
  | .waiting, true => { s with signalled := false, listener := .woken }
  | _, _ => s

/-- It reads the file. -/
def read (s : Reloading κ ε α) : Reloading κ ε α :=
  match s.listener with
  | .woken => { s with listener := .loaded (load s.file), reads := s.reads ++ [s.file] }
  | _ => s

/-- It puts what has loaded in place. -/
def finish (s : Reloading κ ε α) : Reloading κ ε α :=
  match s.listener with
  | .loaded (.ok a) => { s with active := a, listener := .waiting }
  | .loaded (.error _) => { s with listener := .waiting }
  | _ => s

def step (s : Reloading κ ε α) : ReloadEvent κ → Reloading κ ε α
  | .edit content => { s with file := content }
  | .signal => { s with signalled := true }
  | .wake => s.wake
  | .read => s.read load
  | .finish => s.finish

/-- The listener waits, and has taken every signal. -/
def AtRest (s : Reloading κ ε α) : Prop := s.listener = .waiting ∧ s.signalled = false

/-- What a content leaves of a value. -/
def accept (a : α) (k : κ) : α :=
  match load k with
  | .ok b => b
  | .error _ => a

/-- What some contents leave of a value, read one after the other. -/
def served (first : α) (contents : List κ) : α := exec (accept load) first contents

variable {load}

theorem accept_ok {k : κ} {b : α} (h : load k = .ok b) (a : α) : accept load a k = b := by
  unfold accept
  rw [h]

theorem accept_error {k : κ} {e : ε} (h : load k = .error e) (a : α) : accept load a k = a := by
  unfold accept
  rw [h]

theorem served_snoc (first : α) (contents : List κ) (k : κ) :
    served load first (contents ++ [k]) = accept load (served load first contents) k :=
  exec_snoc _ _ _

/-- It is the first value, or the last that loaded. -/
theorem served_loaded (first : α) (contents : List κ) : served load first contents = first ∨
    ∃ k ∈ contents, load k = .ok (served load first contents) := by
  induction contents using List.reverseRecOn with
  | nil => exact .inl rfl
  | append_singleton contents k ih =>
      rw [served_snoc]
      cases hload : load k with
      | ok b =>
          rw [accept_ok hload]
          exact .inr ⟨k, List.mem_append_right _ List.mem_cons_self, hload⟩
      | error e =>
          rw [accept_error hload]
          refine ih.imp id ?_
          rintro ⟨k', hk', hload'⟩
          exact ⟨k', List.mem_append_left _ hk', hload'⟩

/-- What is active is what was read; the last reading may still be on its way. -/
structure Follows (load : κ → Except ε α) (first : α) (s : Reloading κ ε α) : Prop where
  settled : (∀ r, s.listener ≠ .loaded r) → s.active = served load first s.reads
  loaded : ∀ r, s.listener = .loaded r → ∃ before k, s.reads = before ++ [k] ∧ r = load k
    ∧ s.active = served load first before

theorem follows_start (file : κ) (first : α) : Follows load first (start file first) where
  settled _ := rfl
  loaded := nofun

theorem follows_step {first : α} {s : Reloading κ ε α} (h : Follows load first s)
    (e : ReloadEvent κ) : Follows load first (step load s e) := by
  cases e with
  | edit content => exact ⟨h.settled, h.loaded⟩
  | signal => exact ⟨h.settled, h.loaded⟩
  | wake =>
      show Follows load first s.wake
      unfold wake
      split
      · rename_i hwaiting _
        exact ⟨fun _ => h.settled (by simp [hwaiting]), nofun⟩
      · exact h
  | read =>
      show Follows load first (s.read load)
      unfold read
      split
      · rename_i hwoken
        refine ⟨fun hnot => absurd rfl (hnot _), fun r hr => ?_⟩
        obtain rfl := Listener.loaded.inj hr
        exact ⟨s.reads, s.file, rfl, rfl, h.settled (by simp [hwoken])⟩
      · exact h
  | finish =>
      show Follows load first s.finish
      unfold finish
      split
      · rename_i a hloaded
        obtain ⟨before, k, hreads, hr, -⟩ := h.loaded _ hloaded
        refine ⟨fun _ => ?_, nofun⟩
        dsimp only
        rw [hreads, served_snoc, accept_ok hr.symm]
      · rename_i e hloaded
        obtain ⟨before, k, hreads, hr, hactive⟩ := h.loaded _ hloaded
        refine ⟨fun _ => ?_, nofun⟩
        dsimp only
        rw [hreads, served_snoc, accept_error hr.symm, hactive]
      · exact h

theorem follows_exec (file : κ) (first : α) (es : List (ReloadEvent κ)) :
    Follows load first (exec (step load) (start file first) es) :=
  exec_inv (P := Follows load first) (fun _ e h => follows_step h e) (follows_start file first) es

/-- What is active was there first, or was loaded from something that was read. -/
theorem Follows.active {first : α} {s : Reloading κ ε α} (h : Follows load first s) :
    s.active = first ∨ ∃ k ∈ s.reads, load k = .ok s.active := by
  by_cases hloaded : ∃ r, s.listener = .loaded r
  · obtain ⟨r, hr⟩ := hloaded
    obtain ⟨before, k, hreads, -, hactive⟩ := h.loaded r hr
    rw [hactive, hreads]
    refine (served_loaded first before).imp id ?_
    rintro ⟨k', hk', hload⟩
    exact ⟨k', List.mem_append_left _ hk', hload⟩
  · rw [h.settled fun r hr => hloaded ⟨r, hr⟩]
    exact served_loaded first s.reads

/-- Whatever was read was in the file when it was read. -/
theorem mem_reads (s₀ : Reloading κ ε α) (hnone : s₀.reads = []) (es : List (ReloadEvent κ)) :
    ∀ k ∈ (exec (step load) s₀ es).reads, ∃ before after, es = before ++ .read :: after
      ∧ (exec (step load) s₀ before).file = k := by
  induction es using List.reverseRecOn with
  | nil => simp [hnone]
  | append_singleton es e ih =>
      intro k hk
      rw [exec_snoc] at hk
      have hearlier : k ∈ (exec (step load) s₀ es).reads → ∃ before after,
          es ++ [e] = before ++ .read :: after ∧ (exec (step load) s₀ before).file = k := by
        intro hmem
        obtain ⟨before, after, rfl, hfile⟩ := ih k hmem
        exact ⟨before, after ++ [e], by simp, hfile⟩
      cases e with
      | edit content => exact hearlier hk
      | signal => exact hearlier hk
      | wake =>
          unfold step wake at hk
          dsimp only at hk
          split at hk <;> exact hearlier hk
      | finish =>
          unfold step finish at hk
          dsimp only at hk
          split at hk <;> exact hearlier hk
      | read =>
          unfold step read at hk
          dsimp only at hk
          split at hk
          · rcases List.mem_append.mp hk with hk | hk
            · exact hearlier hk
            · exact ⟨es, [], rfl, (List.mem_singleton.mp hk).symm⟩
          · exact hearlier hk

/-! ## Signals -/

/-- A signal is still waiting, or taken, or the file has been read as it is now. -/
def Heeded (s : Reloading κ ε α) : Prop :=
  s.signalled = true ∨ s.listener = .woken ∨ ∃ before, s.reads = before ++ [s.file]

theorem heeded_step {s : Reloading κ ε α} (h : Heeded s) {e : ReloadEvent κ}
    (he : ∀ content, e ≠ .edit content) : Heeded (step load s e) := by
  cases e with
  | edit content => exact absurd rfl (he content)
  | signal => exact .inl rfl
  | wake =>
      show Heeded s.wake
      unfold wake
      split
      · exact .inr (.inl rfl)
      · exact h
  | read =>
      show Heeded (s.read load)
      unfold read
      split
      · exact .inr (.inr ⟨s.reads, rfl⟩)
      · exact h
  | finish =>
      show Heeded s.finish
      unfold finish
      split
      · rename_i hloaded
        refine h.imp id (Or.imp (fun hwoken => ?_) id)
        rw [hloaded] at hwoken
        cases hwoken
      · rename_i hloaded
        refine h.imp id (Or.imp (fun hwoken => ?_) id)
        rw [hloaded] at hwoken
        cases hwoken
      · exact h

/--
**No signal is lost.**

Once the listener is at rest after a signal, and the file has not changed since the signal, the
last content read is the file's, and what is active is what it leaves: what it loads as, or else
what the contents read before it have left.
-/
theorem signal_heeded (file : κ) (first : α) {es es₁ es₂ : List (ReloadEvent κ)}
    (hes : es = es₁ ++ .signal :: es₂) (hquiet : ∀ content, .edit content ∉ es₂)
    (hrest : AtRest (exec (step load) (start file first) es)) :
    ∃ before, (exec (step load) (start file first) es).reads
        = before ++ [(exec (step load) (start file first) es).file]
      ∧ (exec (step load) (start file first) es).active
        = accept load (served load first before) (exec (step load) (start file first) es).file := by
  have hfollows : Follows load first (exec (step load) (start file first) es) :=
    follows_exec file first es
  have hheeded : Heeded (exec (step load) (start file first) es) := by
    rw [hes, exec_append, exec_cons]
    refine exec_inv_of_mem (P := Heeded) (A := fun e : ReloadEvent κ => ∀ content, e ≠ .edit content)
      (fun s e h he => heeded_step h he) (.inl rfl) ?_
    rintro e he content rfl
    exact hquiet content he
  generalize exec (step load) (start file first) es = s at *
  rcases hheeded with hsignal | hwoken | ⟨before, hreads⟩
  · rw [hrest.2] at hsignal
    cases hsignal
  · rw [hrest.1] at hwoken
    cases hwoken
  · refine ⟨before, hreads, ?_⟩
    rw [hfollows.settled (by simp [hrest.1]), hreads, served_snoc]

end Reloading

end Lib
