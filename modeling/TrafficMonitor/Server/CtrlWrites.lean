import TrafficMonitor.Server.Sessions

/-!
# Control writes and the end of a connection

An admin handler looks up the channel of a client and writes a control line through it
later; the session's thread meanwhile may remove the channel, destroy the WebSocket
stream, free the TLS object and close the descriptor that the channel has captured.

Proved here, for every interleaving of any number of handlers and sessions:

* `writes_open_of_run`: every write finds its connection open, in every run in which no
  stream is destroyed and no connection freed while a handler holds its channel;
* `write_after_free`: without that condition a handler writes to a freed connection.

The channel is shared by pointer, and `remove` only takes it out of the table: nothing
tells a handler that already holds it that the captured objects are gone.
-/

namespace TrafficMonitor.Sessions

open Bytes Runs

variable {config : ServerConfig}

/-- Every write made through a channel found its connection open. -/
def WritesOpen (s : State) : Prop := ∀ w ∈ s.writes, w.wasOpen = true

/-- The stream is destroyed and the connection freed only while no handler holds the
session's channel with its write still to come. -/
def NotHeld (s : State) : Action → Prop
  | .session i .destroyStream => i ∉ s.handlers
  | .session i .freeConn => i ∉ s.handlers
  | _ => True

instance (s : State) : ∀ a, Decidable (NotHeld s a)
  | .session _ a => by cases a <;> (unfold NotHeld; infer_instance)
  | .authenticate .. | .lookup _ | .write _ => isTrue trivial

/-- The channels that handlers hold are those of open connections. -/
def HandlersOpen (s : State) : Prop :=
  ∀ i ∈ s.handlers, (s.sessions[i]?).any (·.open) = true

theorem open_of_hooked {se : Session} (h : se.phase.hooked = true) : se.open = true := by
  unfold Session.open
  cases hp : se.phase <;> simp_all [Phase.hooked]

/-- A connection stays open through every action but the two that end it. -/
theorem open_enters {se : Session} {a : SessionAction} {p : Phase} (i : SessionId) (sh : Shared)
    (he : se.enters config a = some p) (hd : a ≠ .destroyStream) (hf : a ≠ .freeConn) :
    (se.moved config i sh a p).open = true := by
  have hp : p ≠ .freed ∧ p ≠ .streamGone := by
    cases a <;> simp only [Session.enters] at he <;> grind
  simp [Session.open, hp]

private theorem handlersOpen_session {s s' : State} {i : SessionId} {a : SessionAction}
    (hi : HandlersOpen s) (hc : NotHeld s (.session i a))
    (hs : step config s (.session i a) = some s') : HandlersOpen s' := by
  obtain ⟨se, p, hse, hp, rfl⟩ := step_session_eq_some.mp hs
  intro j hj
  by_cases hji : j = i
  · subst hji
    simp only [getElem?_set_self hse, Option.any_some]
    refine open_enters j _ hp ?_ ?_
    · rintro rfl
      exact hc hj
    · rintro rfl
      exact hc hj
  · simp only [List.getElem?_set_ne (Ne.symm hji)]
    exact hi j hj

theorem handlersOpen_step {s s' : State} {a : Action} (ho : ChannelOwned s) (hi : HandlersOpen s)
    (hc : NotHeld s a) (hs : step config s a = some s') : HandlersOpen s' := by
  cases a with
  | authenticate c ip t =>
    obtain ⟨_, rfl⟩ := step_authenticate_eq_some.mp hs
    intro j hj
    have hj := hi j hj
    cases hse : s.sessions[j]? with
    | none => simp [hse] at hj
    | some se =>
      rw [hse] at hj
      simpa [getElem?_snoc_eq_some.mpr (.inl hse)] using hj
  | session i a => exact handlersOpen_session hi hc hs
  | lookup c =>
    cases step_lookup_eq_some.mp hs
    intro j hj
    rcases List.mem_append.mp hj with hj | hj
    · -- a channel that is still in the table is that of an open connection
      obtain ⟨se, hse, _, hh⟩ := ho c j (Option.mem_toList.mp hj)
      simp [hse, open_of_hooked hh]
    · exact hi j hj
  | write i =>
    obtain ⟨_, rfl⟩ := step_write_eq_some.mp hs
    exact fun j hj => hi j (List.mem_of_mem_erase hj)

theorem writesOpen_step {s s' : State} {a : Action} (ho : HandlersOpen s) (hi : WritesOpen s)
    (hs : step config s a = some s') : WritesOpen s' := by
  cases a with
  | authenticate c ip t =>
    obtain ⟨_, rfl⟩ := step_authenticate_eq_some.mp hs
    exact hi
  | session i a =>
    obtain ⟨_, _, _, _, rfl⟩ := step_session_eq_some.mp hs
    exact hi
  | lookup c =>
    cases step_lookup_eq_some.mp hs
    exact hi
  | write i =>
    obtain ⟨hmem, rfl⟩ := step_write_eq_some.mp hs
    intro w hw
    rcases List.mem_append.mp hw with hw | hw
    · exact hi w hw
    · cases List.mem_singleton.mp hw
      exact ho i hmem

/-- What the guarded steps preserve. -/
structure Invariant (s : State) : Prop where
  owned : ChannelOwned s
  handlers : HandlersOpen s
  writes : WritesOpen s

theorem invariant_init : Invariant {} :=
  ⟨channelOwned_init, by simp [HandlersOpen], by simp [WritesOpen]⟩

theorem invariant_step {s s' : State} {a : Action} (hi : Invariant s) (hc : NotHeld s a)
    (hs : step config s a = some s') : Invariant s' where
  owned := channelOwned_step hi.owned hs
  handlers := handlersOpen_step hi.owned hi.handlers hc hs
  writes := writesOpen_step hi.handlers hi.writes hs

/-- **Every write finds its connection open**, in every run in which no connection ends
while a handler holds its channel. -/
theorem writes_open_of_run {as : List Action} {s : State}
    (hm : Meets (step config) NotHeld {} as) (hr : run (step config) {} as = some s) :
    WritesOpen s :=
  (invariant_of_meets (fun _ _ _ hi hc hs => invariant_step hi hc hs) invariant_init hm hr).writes

/-! ## Two runs -/

/-- A session comes up, and a handler looks up its channel. -/
def lookedUp : List Action := comesUp 0 clientA (ascii "192.0.2.7") ++ [.lookup clientA]

/-- The handler writes before the session ends. -/
theorem writes_open_of_run_in_time :
    ∃ s, run (step {}) {} (lookedUp ++ .write 0 :: goesDown 0) = some s ∧ s.writes = [⟨0, true⟩] ∧
      WritesOpen s := by
  have hrun : (run (step {}) {} (lookedUp ++ .write 0 :: goesDown 0)).map (·.writes) =
      some [⟨0, true⟩] := by decide +kernel
  obtain ⟨s, hs, hw⟩ := Option.map_eq_some_iff.mp hrun
  exact ⟨s, hs, hw, writes_open_of_run (by decide +kernel) hs⟩

/-- The handler writes after the session has ended: the write is made, to a connection that
is freed. -/
theorem write_after_free :
    ∃ s, run (step {}) {} (lookedUp ++ goesDown 0 ++ [.write 0]) = some s ∧
      s.writes = [⟨0, false⟩] ∧ ¬ WritesOpen s := by
  have hrun : (run (step {}) {} (lookedUp ++ goesDown 0 ++ [.write 0])).map (·.writes) =
      some [⟨0, false⟩] := by decide +kernel
  obtain ⟨s, hs, hw⟩ := Option.map_eq_some_iff.mp hrun
  refine ⟨s, hs, hw, fun h => ?_⟩
  have := h ⟨0, false⟩ (by simp [hw])
  cases this

end TrafficMonitor.Sessions
