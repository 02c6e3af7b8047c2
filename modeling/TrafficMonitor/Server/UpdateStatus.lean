import TrafficMonitor.Basic.Runs
import TrafficMonitor.Server.Registry

/-!
# The status of a pushed update

The server keeps one `UpdateStatus` per client. Three writers share it: an admin's update
request replaces it, the client's `L upd` lines rewrite its stage, and the watchdog of a
request reads it ten minutes later and, in a second step, turns it into a timeout.

Proved here, for every interleaving of requests, lines and watchdogs:

* `status_absorbing_of_run`: a terminal status stays terminal, of the same request, and is
  not turned into a timeout, until a new request replaces it or it expires, in every run in
  which no late `ack` or `stage` line and no late timeout meets a terminal status;
* `late_line_and_timeout`: without that condition a finished update is reopened by a late
  line, and a `done` that arrives between the two steps of the watchdog is lost.

`applyUpdLine` compares the request id and nothing else: it writes over a terminal status as
over any other.
-/

namespace TrafficMonitor.Updates

open Bytes Runs

/-! ## The registry -/

/-- Times are in nanoseconds of the steady clock. -/
structure UpdateStatus where
  req_id : Bytes := []
  stage : Bytes := []
  error : Bytes := []
  new_version : Bytes := []
  started_at : Nat := 0
  updated_at : Nat := 0
  terminal : Bool := false
  deriving DecidableEq

def nsPerMinute : Nat := 60000000000

def UpdateStatus.expired (now : Nat) (st : UpdateStatus) : Bool :=
  st.terminal && 5 ≤ (now - st.updated_at) / nsPerMinute

abbrev ClientUpdateRegistry := ClientId → Option UpdateStatus

/-- The fields that one line sets. -/
structure UpdLine where
  reqId : Bytes
  stage : Bytes
  error : Bytes := []
  newVersion : Bytes := []
  terminal : Bool
  deriving DecidableEq

def UpdateStatus.write (now : Nat) (st : UpdateStatus) (upd : UpdLine) : UpdateStatus :=
  { st with stage := upd.stage, error := upd.error, new_version := upd.newVersion,
            terminal := upd.terminal, updated_at := now }

namespace ClientUpdateRegistry

def purgeExpiredLocked (statuses : ClientUpdateRegistry) (now : Nat) : ClientUpdateRegistry :=
  fun id => (statuses id).filter fun st => !st.expired now

def set (statuses : ClientUpdateRegistry) (now : Nat) (clientId : ClientId) (st : UpdateStatus) :
    ClientUpdateRegistry :=
  purgeExpiredLocked
    (fun id => if id = clientId then some { st with updated_at := now } else statuses id) now

/-- `applyUpdLine`; nothing changes when there is no entry or its request is another. -/
def applyUpdLine (statuses : ClientUpdateRegistry) (now : Nat) (clientId : ClientId)
    (upd : UpdLine) : ClientUpdateRegistry :=
  fun id => if id = clientId then
    (statuses id).map fun st => if st.req_id = upd.reqId then st.write now upd else st
  else statuses id

def get (statuses : ClientUpdateRegistry) (clientId : ClientId) : UpdateStatus :=
  (statuses clientId).getD {}

end ClientUpdateRegistry

/-! ## The lines -/

/-- The text before the first blank, and the text after it (none: empty). -/
def splitFirst (s : Bytes) : Bytes × Bytes := (Lines.cut SP s).getD (s, [])

/-- What one verb of the client sets. -/
def updLineOf (reqId verb arg : Bytes) : Option UpdLine :=
  if verb = ascii "ack" then some { reqId, stage := ascii "ack", terminal := false }
  else if verb = ascii "stage" then some { reqId, stage := arg, terminal := false }
  else if verb = ascii "noop" then some { reqId, stage := ascii "noop_" ++ arg, terminal := true }
  else if verb = ascii "done" then
    some { reqId, stage := ascii "done", newVersion := arg, terminal := true }
  else if verb = ascii "err" then
    let (errStage, errMsg) := splitFirst arg
    some { reqId, stage := ascii "err_" ++ errStage, error := errMsg, terminal := true }
  else none

/-- What an `L upd <req_id> <verb> [fields...]` line says; `none` for every other line. -/
def routeUpd (line : Bytes) : Option UpdLine :=
  match stripPrefix kLogRespLinePrefix line with
  | none => none
  | some lBody => match stripPrefix (ascii "upd ") lBody with
    | none => none
    | some rest => match Lines.cut SP rest with
      | none => none
      | some (reqId, tail) =>
        let (verb, arg) := splitFirst (trimRight (fun c => c = LF || c = CR) tail)
        updLineOf reqId verb arg

def timeoutStage : Bytes := ascii "timeout"

/-- What the watchdog applies. -/
def timeoutOf (reqId : Bytes) : UpdLine where
  reqId := reqId
  stage := timeoutStage
  error := ascii "watchdog"
  terminal := true

/-- No verb of a client ends the request the way a timeout does. -/
theorem stage_ne_timeout_of_updLineOf {reqId verb arg : Bytes} {upd : UpdLine}
    (h : updLineOf reqId verb arg = some upd) (ht : upd.terminal = true) :
    upd.stage ≠ timeoutStage := by
  unfold updLineOf at h
  repeat' split at h
  all_goals cases h
  all_goals simp_all [timeoutStage, ascii]

theorem stage_ne_timeout_of_routeUpd {line : Bytes} {upd : UpdLine}
    (h : routeUpd line = some upd) (ht : upd.terminal = true) : upd.stage ≠ timeoutStage := by
  unfold routeUpd at h
  cases hbody : stripPrefix kLogRespLinePrefix line with
  | none => simp [hbody] at h
  | some lBody =>
    cases hupd : stripPrefix (ascii "upd ") lBody with
    | none => simp [hbody, hupd] at h
    | some rest =>
      cases hcut : Lines.cut SP rest with
      | none => simp [hbody, hupd, hcut] at h
      | some p =>
        simp only [hbody, hupd, hcut] at h
        exact stage_ne_timeout_of_updLineOf h ht

/-! ## The system -/

/-- A watchdog thread of one request; it sleeps at least until `wakeAt`. -/
structure Watchdog where
  clientId : ClientId
  reqId : Bytes
  wakeAt : Nat
  deriving DecidableEq

structure State where
  now : Nat := 0
  statuses : ClientUpdateRegistry := fun _ => none
  sleeping : List Watchdog := []
  /-- Watchdogs that have read a status still open and have not applied the timeout yet. -/
  firing : List Watchdog := []

inductive Action where
  | tick (d : Nat)
  /-- An update request that has passed the handler's checks, with its generated id. -/
  | request (clientId : ClientId) (reqId : Bytes)
  /-- One line of a client's session. -/
  | line (clientId : ClientId) (text : Bytes)
  | watchdogRead (i : Nat)
  | watchdogApply (i : Nat)
  deriving DecidableEq

def watchdogDelay : Nat := 10 * nsPerMinute

/-- The watchdog's test on the status it has read. -/
def Watchdog.due (w : Watchdog) (cur : UpdateStatus) : Bool :=
  cur.req_id ≠ [] && cur.req_id = w.reqId && !cur.terminal

def step (s : State) : Action → Option State
  | .tick d => some { s with now := s.now + d }
  | .request clientId reqId => some
      { s with
        statuses := s.statuses.set s.now clientId
          { req_id := reqId, stage := ascii "sent", started_at := s.now, updated_at := s.now }
        sleeping := s.sleeping ++ [⟨clientId, reqId, s.now + watchdogDelay⟩] }
  | .line clientId text => some
      { s with statuses := (routeUpd text).elim s.statuses (s.statuses.applyUpdLine s.now clientId) }
  | .watchdogRead i => match s.sleeping[i]? with
    | none => none
    | some w => if w.wakeAt ≤ s.now then
        some { s with
          sleeping := s.sleeping.eraseIdx i
          firing := if w.due (s.statuses.get w.clientId) then s.firing ++ [w] else s.firing }
      else none
  | .watchdogApply i => match s.firing[i]? with
    | none => none
    | some w => some
        { s with
          statuses := s.statuses.applyUpdLine s.now w.clientId (timeoutOf w.reqId)
          firing := s.firing.eraseIdx i }

/-- The fields that the action writes to the entry of a client, if it applies a line to it. -/
def Action.applies (s : State) : Action → Option (ClientId × UpdLine)
  | .line clientId text => (routeUpd text).map fun upd => (clientId, upd)
  | .watchdogApply i => (s.firing[i]?).map fun w => (w.clientId, timeoutOf w.reqId)
  | _ => none

/-- No `ack` or `stage` line meets a terminal status of its own request, and no timeout
meets one that the client has reported. -/
def Harmless (s : State) (a : Action) : Prop :=
  ∀ p ∈ a.applies s, ∀ st ∈ s.statuses p.1, st.req_id = p.2.reqId → st.terminal = true →
    p.2.terminal = true ∧ (p.2.stage = timeoutStage → st.stage = timeoutStage)

instance (s : State) (a : Action) : Decidable (Harmless s a) := by
  unfold Harmless; infer_instance

/-- What is left of a terminal status `u`: a terminal status of the same request, which no
watchdog has turned into a timeout, or nothing once the five minutes are over. -/
def Settled (u : UpdateStatus) (now : Nat) : Option UpdateStatus → Prop
  | none => u.updated_at + 5 * nsPerMinute ≤ now
  | some v => v.req_id = u.req_id ∧ v.terminal = true ∧
      (v.stage = timeoutStage → u.stage = timeoutStage) ∧
      u.updated_at ≤ v.updated_at ∧ v.updated_at ≤ now

/-! ## What one step does to an entry -/

theorem expired_iff {now : Nat} {st : UpdateStatus} :
    st.expired now = true ↔ st.terminal = true ∧ st.updated_at + 5 * nsPerMinute ≤ now := by
  have h : 5 ≤ (now - st.updated_at) / nsPerMinute ↔ st.updated_at + 5 * nsPerMinute ≤ now := by
    unfold nsPerMinute
    omega
  simp [UpdateStatus.expired, h]

theorem applyUpdLine_of_ne {statuses : ClientUpdateRegistry} {now : Nat} {clientId id : ClientId}
    {upd : UpdLine} (h : id ≠ clientId) :
    statuses.applyUpdLine now clientId upd id = statuses id := by
  simp [ClientUpdateRegistry.applyUpdLine, h]

/-- A line of another request changes no entry. -/
theorem applyUpdLine_of_foreign {statuses : ClientUpdateRegistry} {clientId : ClientId}
    {upd : UpdLine} (now : Nat) (h : ∀ st ∈ statuses clientId, st.req_id ≠ upd.reqId) :
    statuses.applyUpdLine now clientId upd = statuses := by
  funext id
  by_cases he : id = clientId
  · subst he
    cases hst : statuses id with
    | none => simp [ClientUpdateRegistry.applyUpdLine, hst]
    | some st => simp [ClientUpdateRegistry.applyUpdLine, hst, h st hst]
  · exact applyUpdLine_of_ne he

theorem applyUpdLine_cases (statuses : ClientUpdateRegistry) (now : Nat) (clientId c : ClientId)
    (upd : UpdLine) :
    statuses.applyUpdLine now clientId upd c = statuses c ∨
    (clientId = c ∧ ∃ st, statuses c = some st ∧ st.req_id = upd.reqId ∧
      statuses.applyUpdLine now clientId upd c = some (st.write now upd)) := by
  by_cases he : c = clientId
  · subst he
    cases hst : statuses c with
    | none => simp [ClientUpdateRegistry.applyUpdLine, hst]
    | some st =>
      by_cases hr : st.req_id = upd.reqId
      · exact .inr ⟨rfl, st, rfl, hr, by simp [ClientUpdateRegistry.applyUpdLine, hst, hr]⟩
      · exact .inl (by simp [ClientUpdateRegistry.applyUpdLine, hst, hr])
  · exact .inl (applyUpdLine_of_ne he)

theorem step_now {s s' : State} {a : Action} (h : step s a = some s') : s.now ≤ s'.now := by
  cases a with
  | tick d => cases h; simp
  | request clientId reqId => cases h; rfl
  | line clientId text => cases h; rfl
  | watchdogRead i =>
    simp only [step] at h
    split at h
    · cases h
    · split at h <;> cases h
      rfl
  | watchdogApply i =>
    simp only [step] at h
    split at h <;> cases h
    rfl

/-- Outside its own requests, an entry changes by the lines applied to it and expires. -/
theorem statuses_step {s s' : State} {a : Action} {c : ClientId} (h : step s a = some s')
    (hc : ∀ r, a ≠ .request c r) :
    s'.statuses c = s.statuses c ∨
    (∃ st, s.statuses c = some st ∧ st.expired s'.now = true ∧ s'.statuses c = none) ∨
    ∃ st upd, a.applies s = some (c, upd) ∧ s.statuses c = some st ∧ st.req_id = upd.reqId ∧
      s'.statuses c = some (st.write s'.now upd) := by
  cases a with
  | tick d => cases h; exact .inl rfl
  | request clientId reqId =>
    cases h
    have hne : c ≠ clientId := fun e => hc reqId (by rw [e])
    simp only [ClientUpdateRegistry.set, ClientUpdateRegistry.purgeExpiredLocked, hne, ↓reduceIte]
    cases hst : s.statuses c with
    | none => simp
    | some st =>
      cases hx : st.expired s.now with
      | true => simp [hx]
      | false => simp [hx]
  | line clientId text =>
    cases h
    cases hu : routeUpd text with
    | none => exact .inl rfl
    | some upd =>
      rcases applyUpdLine_cases s.statuses s.now clientId c upd with h | ⟨rfl, st, hst, hr, h⟩
      · exact .inl h
      · exact .inr (.inr ⟨st, upd, by simp [Action.applies, hu], hst, hr, h⟩)
  | watchdogRead i =>
    simp only [step] at h
    split at h
    · cases h
    · split at h <;> cases h
      exact .inl rfl
  | watchdogApply i =>
    simp only [step] at h
    split at h
    · cases h
    · rename_i w hw
      cases h
      rcases applyUpdLine_cases s.statuses s.now w.clientId c (timeoutOf w.reqId) with
        h | ⟨rfl, st, hst, hr, h⟩
      · exact .inl h
      · exact .inr (.inr ⟨st, timeoutOf w.reqId, by simp [Action.applies, hw], hst, hr, h⟩)

/-- An action whose line or timeout names another request leaves the registry as it is. -/
theorem statuses_of_foreign {s s' : State} {a : Action} {c : ClientId} {upd : UpdLine}
    (h : step s a = some s') (ha : a.applies s = some (c, upd))
    (hf : ∀ st ∈ s.statuses c, st.req_id ≠ upd.reqId) : s'.statuses = s.statuses := by
  cases a with
  | tick d => cases ha
  | request clientId reqId => cases ha
  | line clientId text =>
    obtain ⟨upd', hu, he⟩ := Option.map_eq_some_iff.mp ha
    cases he
    cases h
    simpa [hu] using applyUpdLine_of_foreign s.now hf
  | watchdogRead i => cases ha
  | watchdogApply i =>
    obtain ⟨w, hw, he⟩ := Option.map_eq_some_iff.mp ha
    cases he
    simp only [step, hw, Option.some.injEq] at h
    subst h
    exact applyUpdLine_of_foreign s.now hf

/-! ## Runs -/

/-- No entry was updated in the future. -/
def Dated (s : State) : Prop := ∀ c st, s.statuses c = some st → st.updated_at ≤ s.now

theorem dated_step {s s' : State} {a : Action} (hi : Dated s) (h : step s a = some s') :
    Dated s' := by
  intro c st hst
  have hn := step_now h
  by_cases hc : ∃ r, a = .request c r
  · obtain ⟨r, rfl⟩ := hc
    cases h
    simp only [ClientUpdateRegistry.set, ClientUpdateRegistry.purgeExpiredLocked,
      ↓reduceIte] at hst
    cases (Option.filter_eq_some_iff.mp hst).1
    exact le_refl _
  · rcases statuses_step h fun r e => hc ⟨r, e⟩ with e | ⟨u, _, _, e⟩ | ⟨u, upd, _, _, _, e⟩
    · exact (hi c st (e ▸ hst)).trans hn
    · rw [e] at hst
      cases hst
    · rw [e] at hst
      cases hst
      exact le_refl _

theorem settled_step {s s' : State} {a : Action} {c : ClientId} {u : UpdateStatus}
    (h : step s a = some s') (hc : ∀ r, a ≠ .request c r) (ha : Harmless s a)
    (hi : Settled u s.now (s.statuses c)) : Settled u s'.now (s'.statuses c) := by
  have hn := step_now h
  rcases statuses_step h hc with e | ⟨v, hv, hx, e⟩ | ⟨v, upd, hap, hv, hr, e⟩
  · rw [e]
    cases hv : s.statuses c with
    | none =>
      rw [hv] at hi
      exact hi.trans hn
    | some v =>
      rw [hv] at hi
      obtain ⟨hr, ht, hto, hle, hup⟩ := hi
      exact ⟨hr, ht, hto, hle, hup.trans hn⟩
  · rw [hv] at hi
    rw [e]
    obtain ⟨_, _, _, hle, _⟩ := hi
    have := (expired_iff.mp hx).2
    simp only [Settled]
    omega
  · rw [hv] at hi
    rw [e]
    obtain ⟨hreq, ht, hto, hle, hup⟩ := hi
    -- the line that is applied is itself terminal, and no timeout
    obtain ⟨hterm, hstage⟩ := ha _ hap v hv hr ht
    exact ⟨hreq, hterm, fun hs => hto (hstage hs), (hle.trans hup).trans hn, le_refl _⟩

/-- **A terminal status is absorbing.** Once the status of a client is terminal, it stays a
terminal status of the same request, which no watchdog has turned into a timeout, until a
new request replaces it or its five minutes are over; and a line or a watchdog of another
request changes nothing. -/
theorem status_absorbing_of_run {as bs : List Action} {s t : State}
    (hs : run step {} as = some s) (hm : Meets step Harmless s bs) (ht : run step s bs = some t)
    {c : ClientId} {u : UpdateStatus} (hu : s.statuses c = some u) (hterm : u.terminal = true)
    (hc : ∀ r, Action.request c r ∉ bs) :
    Settled u t.now (t.statuses c) ∧
      ∀ a t' d upd, step t a = some t' → a.applies t = some (d, upd) →
        (∀ st ∈ t.statuses d, st.req_id ≠ upd.reqId) → t'.statuses = t.statuses := by
  have hd : Dated s := invariant_of_run (fun _ _ _ hi h => dated_step hi h)
    (by simp [Dated]) hs
  have hi : Settled u s.now (s.statuses c) := by
    rw [hu]
    exact ⟨rfl, hterm, id, le_refl _, hd c u hu⟩
  have hm' := meets_and_of_forall (P := fun a => ∀ r, a ≠ .request c r)
    (by rintro _ ha r rfl; exact hc r ha) hm
  refine ⟨?_, fun a t' d upd h ha hf => statuses_of_foreign h ha hf⟩
  exact invariant_of_meets (I := fun s => Settled u s.now (s.statuses c))
    (fun _ _ _ hi hp h => settled_step h hp.1 hp.2 hi) hi hm' ht

/-! ## Two runs -/

def clientA : ClientId := List.replicate 64 97

def reqA : Bytes := ascii "00112233aabbccdd"

def updText (tail : String) : Bytes := ascii "L upd " ++ reqA ++ SP :: ascii tail

/-- The terminal flag and the stage of the client's status after a run. -/
def viewAfter (as : List Action) : Option (Bool × Bytes) :=
  ((run step {} as).bind fun s => s.statuses clientA).map fun u => (u.terminal, u.stage)

/-- An update that the client has reported as done. -/
def finished : List Action := [.request clientA reqA, .line clientA (updText "done 1.21.0.0")]

/-- The watchdog reads an open status, the client reports its update as done, and the
watchdog applies the timeout. -/
def overtaken : List Action :=
  [.request clientA reqA, .line clientA (updText "stage applying"), .tick watchdogDelay,
    .watchdogRead 0, .line clientA (updText "done 1.21.0.0")]

/-- A late `stage` line reopens a finished update, and a timeout replaces a `done`. -/
theorem late_line_and_timeout :
    viewAfter finished = some (true, ascii "done") ∧
    viewAfter (finished ++ [.line clientA (updText "stage restarting")]) =
      some (false, ascii "restarting") ∧
    viewAfter overtaken = some (true, ascii "done") ∧
    viewAfter (overtaken ++ [.watchdogApply 0]) = some (true, timeoutStage) := by
  decide +kernel

/-- The guarded run, at a finished update that a duplicate of its `done` line meets. -/
theorem status_absorbing_duplicate :
    ∃ s t u, run step {} finished = some s ∧ s.statuses clientA = some u ∧
      run step s [.line clientA (updText "done 1.21.0.0")] = some t ∧
      Settled u t.now (t.statuses clientA) := by
  obtain ⟨s, hs⟩ := Option.isSome_iff_exists.mp
    (show (run step {} finished).isSome = true by decide +kernel)
  have hv : viewAfter finished = some (true, ascii "done") := by decide +kernel
  simp only [viewAfter, hs, Option.bind_some, Option.map_eq_some_iff] at hv
  obtain ⟨u, hu, hv⟩ := hv
  have hm : (run step {} finished).all fun s =>
      decide (Meets step Harmless s [.line clientA (updText "done 1.21.0.0")]) := by
    decide +kernel
  rw [hs] at hm
  have := status_absorbing_of_run hs (of_decide_eq_true hm) rfl hu (congrArg Prod.fst hv)
    (by simp)
  exact ⟨s, _, u, hs, hu, rfl, this.1⟩

end TrafficMonitor.Updates
