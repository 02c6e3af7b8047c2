import TrafficMonitor.Basic.Runs
import TrafficMonitor.Server.LogEndpoints

/-!
# Log-level requests and their acknowledgements

Several handlers of one client's `loglevel` endpoint share one acknowledgement slot of its
control channel: the line loop sets it, and each handler, when its wait ends, reads whether
it is set and clears it. The slot keeps the acknowledged level, which nothing reads.

A stale acknowledgement answers the next request (`stale_ack_answers`). Proved here:

* `routeLine_slot`: a line sets the slot exactly when it is an acknowledgement;
* `own_of_run`: when commands are sent only while the slot is clear, and every
  acknowledgement that arrives is for the level of every request then waiting, a success is
  answered only after the request's own level was acknowledged.
-/

namespace TrafficMonitor.LoglevelAck

open Bytes Control CtrlChannel Dashboard LogEndpoints Runs

/-! ## The channel and its requests -/

/-- A handler that has sent its command. `acked` are the levels that the client has
acknowledged since. -/
structure Waiting where
  level : LogLevel
  acked : List Bytes := []
  deriving DecidableEq, Repr

structure System where
  channel : ClientCtrlChannel := {}
  waiting : List Waiting := []
  answered : List (Waiting × Response) := []

inductive Action
  | send (level : LogLevel)
  | line (text : Bytes)
  | finish (i : Nat)

/-- The level that a line acknowledges. -/
def ackLevel (line : Bytes) : Option Bytes :=
  ((routedBody line).bind (stripPrefix kAckPrefix)).map
    (trimRight fun c => c = CR || c = LF)

/-- A command is sent; a line of the client is routed; the wait of a handler ends. -/
def step (s : System) : Action → Option System
  | .send level => some { s with waiting := s.waiting ++ [{ level }] }
  | .line text => some { s with
      channel := s.channel.routeLine text
      waiting := s.waiting.map fun w => { w with acked := (ackLevel text).toList ++ w.acked } }
  | .finish i => do
    let w ← s.waiting[i]?
    some { channel := { s.channel with gotAck := false }
           waiting := s.waiting.eraseIdx i
           answered := (w, loglevelReply w.level s.channel.gotAck) :: s.answered }

/-- A success is answered only to a request whose own level was acknowledged. -/
def Own (s : System) : Prop :=
  ∀ a ∈ s.answered, a.2.status = 200 → a.1.level.text ∈ a.1.acked

/-- What a step asks of the state before it. -/
def Guard (s : System) : Action → Prop
  | .send _ => s.channel.gotAck = false
  | .line text => ∀ level ∈ ackLevel text, ∀ w ∈ s.waiting, w.level.text = level
  | .finish _ => True

instance decidableGuard (s : System) (a : Action) : Decidable (Guard s a) := by
  cases a <;> unfold Guard <;> infer_instance

/-! ## The slot -/

/-- **What a line does to the slot.** -/
theorem routeLine_slot (ch : ClientCtrlChannel) (line : Bytes) :
    (ch.routeLine line).gotAck = ((ackLevel line).isSome || ch.gotAck) := by
  unfold ClientCtrlChannel.routeLine ackLevel
  cases hb : routedBody line with
  | none => rfl
  | some body =>
    rw [Option.elim_some, Option.bind_some, ClientCtrlChannel.routeLLine]
    cases hp : stripPrefix kAckPrefix body with
    | some level => rfl
    | none =>
      simp only [Option.map_none, Option.isSome_none, Bool.false_or]
      cases replyId body with
      | none => rfl
      | some reqId =>
        simp only
        cases ch.pending reqId <;> rfl

theorem status_loglevelReply (level : LogLevel) (gotAck : Bool) :
    (loglevelReply level gotAck).status = 200 ↔ gotAck = true := by
  cases gotAck <;> simp [loglevelReply, Response.error, Response.setContent]

/-! ## Runs -/

/-- A set slot was set for the level of each request that waits. -/
structure Inv (s : System) : Prop where
  slot : s.channel.gotAck = true → ∀ w ∈ s.waiting, w.level.text ∈ w.acked
  own : Own s

theorem inv_step {s s' : System} {a : Action} (h : Inv s) (hg : Guard s a)
    (hs : step s a = some s') : Inv s' := by
  cases a with
  | send level =>
    obtain rfl := Option.some.inj hs
    have hclear : s.channel.gotAck = false := hg
    exact ⟨fun hset => absurd hset (by simp [hclear]), h.own⟩
  | line text =>
    obtain rfl := Option.some.inj hs
    refine ⟨fun hset w hw => ?_, h.own⟩
    obtain ⟨w, hmem, rfl⟩ := List.mem_map.mp hw
    simp only [routeLine_slot, Bool.or_eq_true] at hset
    cases hack : ackLevel text with
    | some level =>
      have e : w.level.text = level := hg level hack w hmem
      simp [e]
    | none =>
      have := h.slot (by simpa [hack] using hset) w hmem
      simpa using this
  | finish i =>
    simp only [step, Option.bind_eq_bind, Option.bind_eq_some_iff, Option.some.injEq] at hs
    obtain ⟨w, hw, rfl⟩ := hs
    refine ⟨fun hset => absurd hset Bool.false_ne_true, fun a ha hok => ?_⟩
    rcases List.mem_cons.mp ha with rfl | ha
    · have hset := (status_loglevelReply w.level s.channel.gotAck).mp hok
      exact h.slot hset w (List.mem_of_getElem? hw)
    · exact h.own a ha hok

/-- **A success is about the own request**, in every state that a run reaches by steps that
meet the condition, from a channel with a clear slot. -/
theorem own_of_run {as : List Action} {t : System} (hm : Meets step Guard {} as)
    (hr : run step {} as = some t) : Own t := by
  have hi : Inv {} := ⟨fun hset => absurd hset Bool.false_ne_true, List.forall_mem_nil _⟩
  exact (invariant_of_meets (I := Inv) (fun _ _ _ hi hg hs => inv_step hi hg hs) hi hm hr).own

/-! ## Two administrators -/

def ackLine (level : LogLevel) : Bytes := ascii "L ack set_loglevel " ++ level.text

/-- One request after the other, each acknowledged before its wait ends. -/
def inTurn : List Action :=
  [.send .Warn, .line (ackLine .Warn), .finish 0, .send .Err, .line (ackLine .Err), .finish 0]

theorem own_of_run_in_turn :
    Meets step Guard {} inTurn ∧ ∃ t, run step {} inTurn = some t ∧ Own t := by
  have hm : Meets step Guard {} inTurn := by decide +kernel
  exact ⟨hm, _, rfl, own_of_run hm rfl⟩

/-- The acknowledgement of the first request comes after its timeout. -/
def lateAck : List Action :=
  [.send .Warn, .finish 0, .line (ackLine .Warn), .send .Err, .finish 0]

/-- **A stale acknowledgement answers the next request**, for another level and before the
client has acknowledged anything of it. -/
theorem stale_ack_answers :
    ∃ t, run step {} lateAck = some t ∧
      (⟨.Err, []⟩, loglevelReply .Err true) ∈ t.answered ∧ ¬Own t := by
  refine ⟨_, rfl, List.mem_cons_self, fun h => ?_⟩
  have hno := h _ List.mem_cons_self (by decide)
  cases hno

end TrafficMonitor.LoglevelAck
