import TrafficMonitor.Server.Sessions

/-!
# The limit on X-lines

`runWireDataLoop` accepts an X-line when at least `kAnnounceRateLimitSec` seconds of its
monotonic clock lie between it and `lastXLineSec`, which starts at -1: the sentinel for
"none yet" takes part in the arithmetic. Proved here:

* `lastX_step`: only an accepted X-line of the session moves its `lastXLineSec`;
* `accepted_eq_coded`: the outcomes of the X-lines of a session, over every run of the server;
* `limited_iff_late_enough`: they are those of a limit relative to the session exactly
  when the first well-formed line is read at second 29 or later.
-/

namespace TrafficMonitor.XLineLimit

open Bytes Runs Sessions

/-! ## The X-lines of a session -/

/-- An X-line whose address passes the check. -/
def wellFormed (text : Bytes) : Bool :=
  match stripPrefix kExtIPLinePrefix text with
  | some body => validExtIp (trimAddress body)
  | none => false

/-- The branch of an accepted X-line is taken. -/
def accepts (config : ServerConfig) (se : Session) (ev : LineEvent) : Bool :=
  match se.readLine config ev with
  | .external _ => true
  | _ => false

/-- A well-formed X-line: the clock when it was read, and its outcome. -/
structure XLine where
  atSec : Int
  accepted : Bool
  deriving DecidableEq, Repr

/-- The well-formed X-line that session `i` reads in this step, if it reads one. -/
def xLine (config : ServerConfig) (i : SessionId) (s : State) : Action → Option XLine
  | .session j (.line ev) =>
    if j = i ∧ wellFormed ev.text = true then
      (s.sessions[i]?).map fun se => ⟨ev.nowSec, accepts config se ev⟩
    else none
  | _ => none

/-- The well-formed X-lines of session `i` along a run, as far as the run goes. -/
def xLines (config : ServerConfig) (i : SessionId) : State → List Action → List XLine
  | _, [] => []
  | s, a :: as => match step config s a with
    | none => []
    | some s' => (xLine config i s a).toList ++ xLines config i s' as

/-! ## The limit that is asked for, and the one in the code -/

/-- A line is accepted when none has been, or the last accepted one is long enough ago. -/
def limited : Option Int → List Int → List Bool
  | _, [] => []
  | none, t :: ts => true :: limited (some t) ts
  | some last, t :: ts =>
    if t - last ≥ kAnnounceRateLimitSec then true :: limited (some t) ts
    else false :: limited (some last) ts

/-- The same with a number for the last accepted line. -/
def coded : Int → List Int → List Bool
  | _, [] => []
  | last, t :: ts =>
    if t - last ≥ kAnnounceRateLimitSec then true :: coded t ts else false :: coded last ts

theorem coded_eq_limited (last : Int) (ts : List Int) : coded last ts = limited (some last) ts := by
  induction ts generalizing last with
  | nil => rfl
  | cons t ts ih =>
    simp only [coded, limited]
    split
    · rw [ih]
    · rw [ih]

/-- The sentinel is harmless from second 29 on. -/
theorem coded_sentinel_iff (ts : List Int) :
    coded (-1) ts = limited none ts ↔ ∀ t ∈ ts.head?, kAnnounceRateLimitSec ≤ t + 1 := by
  cases ts with
  | nil => simp [coded, limited]
  | cons t ts =>
    have hhead : (∀ u ∈ (t :: ts).head?, (kAnnounceRateLimitSec : Int) ≤ u + 1) ↔
        t - (-1) ≥ kAnnounceRateLimitSec := by
      simp
    rw [hhead, coded, limited]
    constructor
    · intro h
      by_contra hlt
      rw [if_neg hlt] at h
      cases h
    · intro h
      rw [if_pos h, coded_eq_limited]

/-! ## One step -/

variable {config : ServerConfig} {i : SessionId} {s s' : State} {a : Action}

/-- A well-formed line is accepted when its time has come, and no other line is. -/
theorem accepts_eq (se : Session) (ev : LineEvent) : accepts config se ev =
    (wellFormed ev.text && decide (ev.nowSec - se.lastXLineSec ≥ kAnnounceRateLimitSec)) := by
  unfold accepts wellFormed Session.readLine
  cases stripPrefix kExtIPLinePrefix ev.text with
  | some body =>
    by_cases ht : ev.nowSec - se.lastXLineSec ≥ kAnnounceRateLimitSec <;>
      by_cases hv : validExtIp (trimAddress body) = true <;> simp [ht, hv]
  | none =>
    simp only [Bool.false_and]
    cases stripPrefix kAddrLinePrefix ev.text with
    | some body =>
      simp only
      split
      · rename_i he
        split at he <;> cases he
      · rfl
    | none =>
      cases stripPrefix kDataLinePrefix ev.text with
      | some body =>
        cases hm : parseDataLine body config.max_iface_len config.max_ip_len <;> simp [hm]
      | none => rfl

/-- The time of the last accepted X-line; a session starts with -1. -/
def lastX (s : State) (i : SessionId) : Int := (s.sessions[i]?).elim (-1) (·.lastXLineSec)

theorem lastX_authenticate {c : ClientId} {ip : Bytes} {t : Transport}
    (hs : step config s (.authenticate c ip t) = some s') : lastX s' i = lastX s i := by
  obtain ⟨h, rfl⟩ := step_authenticate_eq_some.mp hs
  simp only [lastX]
  rcases Nat.lt_trichotomy i s.sessions.length with hi | rfl | hi
  · rw [List.getElem?_append_left hi]
  · rw [List.getElem?_append_right (Nat.le_refl _), List.getElem?_eq_none (Nat.le_refl _)]
    simp
  · rw [List.getElem?_eq_none (by simp only [List.length_append, List.length_singleton]; omega),
      List.getElem?_eq_none (by omega)]

/-- **One step.** Only an X-line that the session accepts moves its time. -/
theorem lastX_step (hs : step config s a = some s') :
    lastX s' i = match xLine config i s a with
      | some ⟨t, true⟩ => t
      | _ => lastX s i := by
  cases a with
  | authenticate c ip t => simpa [xLine] using lastX_authenticate hs
  | lookup c =>
    cases step_lookup_eq_some.mp hs
    rfl
  | write j =>
    obtain ⟨_, rfl⟩ := step_write_eq_some.mp hs
    rfl
  | session j b =>
    obtain ⟨se, p, hse, hp, rfl⟩ := step_session_eq_some.mp hs
    by_cases hji : j = i
    · subst hji
      have hlast : lastX s j = se.lastXLineSec := by simp [lastX, hse]
      simp only [lastX, getElem?_set_self hse, Option.elim_some, lastXLineSec_moved]
      rw [← lastX, hlast]
      cases b with
      | line ev =>
        simp only [xLine, true_and, hse, Option.map_some]
        have hacc : accepts config se ev = _ := accepts_eq se ev
        by_cases hw : wellFormed ev.text = true
        · rw [if_pos hw]
          unfold accepts
          cases se.readLine config ev <;> rfl
        · rw [if_neg hw]
          simp only [hw, Bool.false_and, accepts] at hacc
          cases hr : se.readLine config ev <;> simp_all
      | _ => rfl
    · have hx : xLine config i s (.session j b) = none := by
        cases b <;> simp [xLine, hji]
      rw [hx, lastX, List.getElem?_set_ne hji, lastX]

/-! ## The run -/

/-- **The X-lines of a session.** In every run, from any state, each is judged by the
rule of the code. -/
theorem accepted_eq_coded (s : State) (as : List Action) :
    (xLines config i s as).map (·.accepted) =
      coded (lastX s i) ((xLines config i s as).map (·.atSec)) := by
  induction as generalizing s with
  | nil => rfl
  | cons a as ih =>
    rcases hs : step config s a with _ | s'
    · simp [xLines, hs, coded]
    · have hlast := lastX_step (i := i) hs
      have hrest := ih s'
      rcases hx : xLine config i s a with _ | x
      · rw [hx] at hlast
        simp only [xLines, hs, hx, Option.toList_none, List.nil_append]
        rw [hrest, hlast]
      · have hacc : x.accepted =
            decide (x.atSec - lastX s i ≥ kAnnounceRateLimitSec) := by
          cases a with
          | session j b =>
            cases b with
            | line ev =>
              simp only [xLine, Option.ite_none_right_eq_some, Option.map_eq_some_iff] at hx
              obtain ⟨⟨rfl, hw⟩, se, hse, rfl⟩ := hx
              simp [accepts_eq, hw, lastX, hse]
            | _ => cases hx
          | _ => cases hx
        rw [hx] at hlast
        simp only [xLines, hs, hx, Option.toList_some, List.singleton_append, List.map_cons, coded]
        by_cases hlate : x.atSec - lastX s i ≥ kAnnounceRateLimitSec
        · have htrue : x.accepted = true := by rw [hacc]; exact decide_eq_true hlate
          rw [if_pos hlate, htrue, hrest, hlast]
          obtain ⟨t, b⟩ := x
          cases htrue
          rfl
        · have hfalse : x.accepted = false := by rw [hacc]; exact decide_eq_false hlate
          rw [if_neg hlate, hfalse, hrest, hlast]
          obtain ⟨t, b⟩ := x
          cases hfalse
          rfl

/-- **The limit is relative to the session** in exactly the runs whose first well-formed
X-line of the session is read when the clock is at 29 seconds or more. -/
theorem limited_iff_late_enough (config : ServerConfig) (i : SessionId) (as : List Action) :
    (xLines config i {} as).map (·.accepted) =
        limited none ((xLines config i {} as).map (·.atSec)) ↔
      ∀ x ∈ (xLines config i {} as).head?, kAnnounceRateLimitSec ≤ x.atSec + 1 := by
  have hstart : lastX {} i = -1 := rfl
  rw [accepted_eq_coded, hstart, coded_sentinel_iff]
  simp [List.head?_map]

/-- A session that comes up ten seconds after boot: its first announcement is refused. -/
theorem first_announcement_refused :
    xLines {} 0 {} (comesUp 0 clientA [] ++
        [.session 0 (.line { nowSec := 10, text := ascii "X null" })]) = [⟨10, false⟩] ∧
      limited none [10] = [true] := by
  decide +kernel

end TrafficMonitor.XLineLimit
