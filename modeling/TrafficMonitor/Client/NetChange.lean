import TrafficMonitor.Client.SenderLoop

/-!
# Network changes and announcements

The network monitor sets a flag when an address changes. Every pass of the sender loop
takes and clears the flag (`checkAndClear`), and a pass on a live connection announces the
addresses again if the flag was set and the last announcement is 30 s old; a reconnect
always announces. A change that a pass finds within the 30 s is dropped:
`change_within_limit_is_lost`.

Proved here:

* `finish_of_announces`, `finish_of_not_announces`: what a pass on a live connection does
  about an announcement;
* `deferred_of_run`: when no pass on a live connection takes the flag within the limit,
  every change is announced by the first live pass after the limit, or by a reconnect
  before.
-/

namespace TrafficMonitor.NetChange

open SenderLoop Runs

/-! ## The loop with its monitor -/

/-- The sender and the flag of `NetworkMonitor`. `owed` says that a change came after the last
announcement, `missed` that a live pass after the limit did not announce it. -/
structure Loop where
  sender : Sender
  changed : Bool := false
  owed : Bool := false
  missed : Bool := false

inductive Action
  | notify
  | sender (a : SenderLoop.Action)

/-- 30 s have passed since the last announcement when the pass reads its clock. -/
def expired (s : Sender) (t : Turn) : Bool :=
  s.lastReannounceTime + kAnnounceRateLimitSec ≤ sec t.now

/-- The pass has a connection from its start up to the place where it announces. -/
def live (s : Sender) (t : Turn) : Bool := s.connected && t.pollOk

/-- The pass calls `sendAnnounce` on its live connection. -/
def announces (s : Sender) (t : Turn) : Bool := live s t && t.netChanged && expired s t

/-- The pass connects, and `connectUnlocked` announces. -/
def reconnects (cfg : SenderConfig) (s : Sender) (t : Turn) : Bool :=
  !s.connected && !idle s t &&
    !(0 < s.reconnectFailures &&
      sec (t.reconnectNow - s.lastReconnectAttempt) < cfg.reconnectIntervalSec) &&
    t.connect ≠ .failed

/-- The rest of a pass, which takes the flag first. -/
def pass (cfg : SenderConfig) (s : Loop) (t : Turn) : Loop :=
  let t := { t with netChanged := s.changed }
  { sender := finish cfg s.sender t
    changed := false
    owed := s.owed && !reconnects cfg s.sender t &&
      !(announces s.sender t && t.announce ≠ .failed)
    missed := s.missed ||
      (s.owed && live s.sender t && expired s.sender t && !announces s.sender t) }

def step (cfg : SenderConfig) (s : Loop) : Action → Option Loop
  | .notify => some { s with changed := true, owed := true }
  | .sender (.finish t) => if s.sender.pc = .encoded then some (pass cfg s t) else none
  | .sender a => (SenderLoop.step cfg s.sender a).map fun sender => { s with sender }

/-- The loop begins without a change. -/
def start (sender : Sender) : Loop := { sender }

/-- Every live pass after the limit has announced the changes before it. -/
def Deferred (s : Loop) : Prop := s.missed = false

instance decidableDeferred (s : Loop) : Decidable (Deferred s) :=
  inferInstanceAs (Decidable (_ = _))

/-- What a pass asks of the state before it: if it finds the flag set on a live connection,
the limit has expired. -/
def Guard (s : Loop) : Action → Prop
  | .sender (.finish t) => s.changed = true → live s.sender t = true → expired s.sender t = true
  | _ => True

instance decidableGuard (s : Loop) : ∀ a, Decidable (Guard s a)
  | .sender (.finish _) => inferInstanceAs (Decidable (_ → _ → _))
  | .sender (.packet _) | .sender .drain | .sender .stop | .notify => isTrue trivial

/-! ## What a pass does -/

theorem sendHealth_connected {t : Turn} {due : Bool} {s : Sender} (h : s.connected = false) :
    sendHealth t due s = s := by
  simp [sendHealth, h]

theorem checkSessionAge_connected {t : Turn} {s : Sender} (h : s.connected = false) :
    checkSessionAge t s = s := by
  simp [checkSessionAge, h]

theorem writeFlush_connected {t : Turn} {s : Sender} (h : s.connected = false) :
    writeFlush t s = s := by
  simp [writeFlush, h]

/-- After the announcement, a pass does not touch its time, and connects nothing. -/
theorem rest_of_pass (t : Turn) (due : Bool) (s : Sender) :
    (writeFlush t (checkSessionAge t (sendHealth t due s))).lastReannounceTime =
        s.lastReannounceTime ∧
      (s.connected = false →
        (writeFlush t (checkSessionAge t (sendHealth t due s))).connected = false) := by
  constructor
  · have hh : (sendHealth t due s).lastReannounceTime = s.lastReannounceTime := by
      unfold sendHealth
      split <;> rfl
    have ha : ∀ s, (checkSessionAge t s).lastReannounceTime = s.lastReannounceTime := by
      intro s
      unfold checkSessionAge
      split <;> rfl
    have hw : ∀ s, (writeFlush t s).lastReannounceTime = s.lastReannounceTime := by
      intro s
      unfold writeFlush
      split
      · split <;> rfl
      · rfl
    rw [hw, ha, hh]
  · intro h
    rw [sendHealth_connected h, checkSessionAge_connected h, writeFlush_connected h]
    exact h

theorem finish_of_connected {cfg : SenderConfig} {s : Sender} (hc : s.connected = true) (t : Turn) :
    finish cfg s t = exchange { s with pc := .waiting } t := by
  unfold finish
  exact if_pos hc

theorem exchange_of_announces {s : Sender} {t : Turn} (h : announces s t = true) :
    (exchange s t).lastReannounceTime =
        (match t.announce with
        | .sent time => sec time
        | _ => sec t.now) ∧
      (t.announce = .failed → (exchange s t).connected = false) := by
  simp only [announces, live, expired, Bool.and_eq_true, decide_eq_true_eq] at h
  obtain ⟨⟨⟨hc, hp⟩, hn⟩, he⟩ := h
  have hidle : idle s t = false := by simp [idle, hn]
  have hpoll : pollCtrl t s = s := by simp [pollCtrl, hp]
  have hfin : exchange s t =
      writeFlush t (checkSessionAge t (sendHealth t (healthDue s t) (reannounce t s))) := by
    simp only [exchange, hidle, Bool.false_eq_true, if_false, hpoll]
  have hgo : (s.connected && t.netChanged &&
      decide (s.lastReannounceTime + kAnnounceRateLimitSec ≤ sec t.now)) = true := by
    simp [hc, hn, he]
  obtain ⟨htime, hconn⟩ := rest_of_pass t (healthDue s t) (reannounce t s)
  rw [hfin]
  constructor
  · rw [htime, reannounce, if_pos hgo]
    cases t.announce <;> rfl
  · intro hfail
    refine hconn ?_
    rw [reannounce, if_pos hgo, hfail]

/-- **A pass that announces** sets the time; if the announcement fails, the connection is
closed. -/
theorem finish_of_announces {cfg : SenderConfig} {s : Sender} {t : Turn}
    (h : announces s t = true) :
    (finish cfg s t).lastReannounceTime =
        (match t.announce with
        | .sent time => sec time
        | _ => sec t.now) ∧
      (t.announce = .failed → (finish cfg s t).connected = false) := by
  have hc : s.connected = true := by
    simp only [announces, live, Bool.and_eq_true] at h
    exact h.1.1.1
  rw [finish_of_connected hc]
  exact exchange_of_announces h

/-- **A pass that does not announce** leaves the time as it is. -/
theorem finish_of_not_announces {cfg : SenderConfig} {s : Sender} {t : Turn}
    (hc : s.connected = true) (h : announces s t = false) :
    (finish cfg s t).lastReannounceTime = s.lastReannounceTime := by
  have hx : ∀ s : Sender, s.connected = true → announces s t = false →
      (exchange s t).lastReannounceTime = s.lastReannounceTime := by
    intro s hc h
    have hpoll : (pollCtrl t s).lastReannounceTime = s.lastReannounceTime := by
      unfold pollCtrl
      split <;> rfl
    simp only [exchange]
    split
    · exact hpoll
    · rw [(rest_of_pass t _ _).1, reannounce, if_neg, hpoll]
      intro hgo
      rw [hpoll] at hgo
      simp only [Bool.and_eq_true, decide_eq_true_eq] at hgo
      obtain ⟨⟨hconn, hn⟩, he⟩ := hgo
      have hp : t.pollOk = true := by
        cases hp : t.pollOk with
        | true => rfl
        | false => simp [pollCtrl, hp] at hconn
      simp [announces, live, expired, hc, hp, hn, he] at h
  rw [finish_of_connected hc]
  exact hx { s with pc := .waiting } hc h

/-- A connection that breaks at the poll stays down for the pass. -/
theorem finish_of_poll_failed {cfg : SenderConfig} {s : Sender} {t : Turn}
    (hc : s.connected = true) (hp : t.pollOk = false) : (finish cfg s t).connected = false := by
  rw [finish_of_connected hc]
  have hpoll : ∀ s : Sender, pollCtrl t s = { s with connected := false } := by
    intro s
    simp [pollCtrl, hp]
  simp only [exchange, hpoll]
  split
  · rfl
  · refine (rest_of_pass t _ _).2 ?_
    simp [reannounce]

/-- A pass that does not reconnect stays disconnected. -/
theorem finish_of_not_reconnects {cfg : SenderConfig} {s : Sender} {t : Turn}
    (hc : s.connected = false) (h : reconnects cfg s t = false) :
    (finish cfg s t).connected = false := by
  unfold finish
  simp only [hc, Bool.false_eq_true, if_false]
  split
  · rfl
  next hidle =>
  split
  · rfl
  next hwait =>
  cases hconn : t.connect with
  | failed =>
    simp only
    split <;> rfl
  | ok announcedAt sessionStart =>
    have hidle' : idle s t = false := by simpa [idle, flushEmpty, healthDue] using hidle
    exfalso
    refine Bool.eq_false_iff.mp h ?_
    simp only [reconnects, hc, hidle', hconn, Bool.not_false, Bool.true_and, ne_eq, reduceCtorEq,
      not_false_eq_true, decide_true, Bool.and_true, Bool.not_eq_true']
    rw [← Bool.decide_and, decide_eq_false_iff_not]
    exact hwait

/-! ## Runs -/

/-- While the connection is up, an announcement that is owed is remembered by the flag. -/
structure Inv (s : Loop) : Prop where
  kept : s.owed = true → s.sender.connected = true → s.changed = true
  deferred : Deferred s

theorem inv_pass {cfg : SenderConfig} {s : Loop} {t : Turn} (h : Inv s)
    (hg : s.changed = true → live s.sender t = true → expired s.sender t = true) :
    Inv (pass cfg s t) := by
  set t' : Turn := { t with netChanged := s.changed } with ht'
  have hann : s.owed = true → live s.sender t' = true → announces s.sender t' = true := by
    intro ho hl
    have hc : s.sender.connected = true := (Bool.and_eq_true_iff.mp hl).1
    have hch := h.kept ho hc
    have he : expired s.sender t' = true := hg hch hl
    simp only [announces, hl, he, Bool.and_true, Bool.true_and]
    exact hch
  constructor
  · intro howed hconn
    simp only [pass, ← ht', Bool.and_eq_true, Bool.not_eq_true'] at howed hconn
    obtain ⟨⟨ho, hrec⟩, hfail⟩ := howed
    exfalso
    cases hc : s.sender.connected with
    | false => exact absurd hconn (by simp [finish_of_not_reconnects hc hrec])
    | true =>
      cases hp : t'.pollOk with
      | false => exact absurd hconn (by simp [finish_of_poll_failed hc hp])
      | true =>
        have ha := hann ho (by simp [live, hc, hp])
        have hf : t'.announce = .failed := by simpa [ha] using hfail
        exact absurd hconn (by simp [(finish_of_announces ha).2 hf])
  · have hd : s.missed = false := h.deferred
    have hmiss : (s.owed && live s.sender t' && expired s.sender t' &&
        !announces s.sender t') = false := by
      rw [Bool.eq_false_iff]
      intro hm
      simp only [Bool.and_eq_true, Bool.not_eq_true'] at hm
      rw [hann hm.1.1.1 hm.1.1.2] at hm
      cases hm.2
    unfold Deferred pass
    simp only [← ht', hd, hmiss, Bool.or_self]

theorem inv_step {cfg : SenderConfig} {s s' : Loop} {a : Action} (h : Inv s) (hg : Guard s a)
    (hs : step cfg s a = some s') : Inv s' := by
  -- the other steps of the sender leave the connection as it is
  have hother : ∀ sender : Sender, sender.connected = s.sender.connected →
      Inv { s with sender } := fun _ e => ⟨fun ho hc => h.kept ho (e ▸ hc), h.deferred⟩
  cases a with
  | notify =>
    obtain rfl := Option.some.inj hs
    exact ⟨fun _ _ => rfl, h.deferred⟩
  | sender b =>
    cases b with
    | finish t =>
      simp only [step] at hs
      split at hs
      · obtain rfl := Option.some.inj hs
        exact inv_pass h hg
      · cases hs
    | packet m =>
      simp only [step, SenderLoop.step, Option.map_some, Option.some.injEq] at hs
      subst hs
      exact hother _ rfl
    | drain =>
      simp only [step, SenderLoop.step, Option.map_eq_some_iff] at hs
      obtain ⟨sender, hb, rfl⟩ := hs
      split at hb
      · obtain rfl := Option.some.inj hb
        exact hother _ rfl
      · cases hb
    | stop =>
      simp only [step, SenderLoop.step, Option.map_eq_some_iff] at hs
      obtain ⟨sender, hb, rfl⟩ := hs
      split at hb
      · obtain rfl := Option.some.inj hb
        exact hother _ rfl
      · cases hb

/-- **Changes are deferred**, in every state that a run reaches by passes that meet the
condition. -/
theorem deferred_of_run (cfg : SenderConfig) (sender : Sender) {as : List Action} {t : Loop}
    (hm : Meets (step cfg) Guard (start sender) as)
    (hr : run (step cfg) (start sender) as = some t) : Deferred t := by
  have hi : Inv (start sender) := ⟨fun ho => absurd ho Bool.false_ne_true, rfl⟩
  exact (invariant_of_meets (I := Inv) (fun _ _ _ hi hg hs => inv_step hi hg hs) hi hm hr).deferred

/-! ## A change at different times -/

/-- A pass at this second, in which every call succeeds. -/
def passAt (time : Nat) : List Action :=
  [.sender .drain,
    .sender (.finish { now := time * 10 ^ 9, announce := .sent (time * 10 ^ 9) })]

/-- The sender announced at second 1000. -/
def announcedAt1000 : Sender :=
  { connected := true, lastReannounceTime := 1000, lastHealthReportSec := 1000,
    sessionStart := 1000 * 10 ^ 9 }

/-- The change comes a minute after the announcement. -/
theorem deferred_of_run_late_change :
    ∃ t, run (step {}) (start announcedAt1000)
        ([.notify] ++ passAt 1060 ++ passAt 1100) = some t ∧ Deferred t := by
  have hm : Meets (step {}) Guard (start announcedAt1000)
      ([.notify] ++ passAt 1060 ++ passAt 1100) := by decide +kernel
  exact ⟨_, rfl, deferred_of_run {} announcedAt1000 hm rfl⟩

/-- **A change within the limit is lost.** The pass at second 1010 takes the flag and does not
announce, and the pass at second 1040 finds it clear. -/
theorem change_within_limit_is_lost :
    ∃ t, run (step {}) (start announcedAt1000)
        ([.notify] ++ passAt 1010 ++ passAt 1040) = some t ∧
      t.sender.connected = true ∧ t.sender.lastReannounceTime = 1000 ∧ ¬Deferred t :=
  ⟨_, rfl, by decide +kernel⟩

end TrafficMonitor.NetChange
