import TrafficMonitor.Basic.Runs
import TrafficMonitor.Protocol

/-!
# The handshake of the iOS client

`WireProtocolClient` is an actor: `connect` publishes the transport and then runs the
authentication exchange, and at each of its `await`s any other task may enter the actor.
The flush loop, the path monitor and the heartbeat call `sendLine`, which writes to
whatever transport is published. One action is what a task does between two suspensions.

Proved here, for any number of `connect`, `sendLine` and `disconnect` calls:

* `wellFramed_of_run`: on each connection the version byte comes first, then the frame of
  97 bytes, then whole lines, and no line before the handshake has completed, in every run
  in which `sendLine` takes a transport only when its handshake has completed;
* `line_in_handshake`: without that condition a line is written where the server expects
  the frame.
-/

namespace TrafficMonitor.WireClient

open Bytes Runs

/-! ## The actor -/

def kAuthVersionV3 : UInt8 := 0x03
def kAuthResultOk : UInt8 := 0x00
def kCapNone : UInt8 := 0x00
def kAuthSignPrefix : Bytes := ascii "NTM-AUTH-v2"
def kAuthNonceLen : Nat := 32

/-- `Curve25519.Signing.PrivateKey`: the raw public key and the signatures. -/
structure PrivateKey where
  publicKey : Bytes
  signature : Bytes → Bytes
  length_publicKey : publicKey.length = 32
  length_signature : ∀ m, (signature m).length = 64

/-- The public key, the signature of the nonce and the capability byte. -/
def authFrame (key : PrivateKey) (nonce : Bytes) : Bytes :=
  key.publicKey ++ key.signature (kAuthSignPrefix ++ nonce) ++ [kCapNone]

/-- The `await` that a call of `connect` has come to. -/
inductive Handshake
  /-- `t.connect` -/
  | connecting
  /-- The transport is published, the version byte is not yet written. -/
  | version
  | nonce
  | frame (nonce : Bytes)
  | result (nonce : Bytes)
  | capability (nonce : Bytes)
  | completed (nonce : Bytes)
  deriving DecidableEq

/-- One transport. `written` is what its connection has been given to send. -/
structure Transport where
  handshake : Handshake := .connecting
  failed : Bool := false
  cancelled : Bool := false
  written : Bytes := []
  deriving DecidableEq

def Transport.completed (t : Transport) : Bool :=
  match t.handshake with
  | .completed _ => true
  | _ => false

abbrev TransportId := Nat

/-- A call of `disconnect`. -/
inductive Disconnect
  | cancelling (t : TransportId)
  | clearing
  deriving DecidableEq

structure State where
  transports : List Transport := []
  /-- The transport that the actor publishes. -/
  transport : Option TransportId := none
  /-- Calls of `sendLine` that wait for their transport, with the bytes to send. -/
  sends : List (TransportId × Bytes) := []
  disconnects : List Disconnect := []
  deriving DecidableEq

/-- How a call of `connect` goes on. -/
inductive Event
  | ready
  | sendVersion
  | receiveNonce (nonce : Bytes)
  | sendFrame
  | receiveResult (result : UInt8)
  | receiveCapability (caps : UInt8)
  /-- The awaited operation throws. -/
  | throws
  deriving DecidableEq

inductive Action
  | connect
  | resume (i : TransportId) (e : Event)
  | sendLine (line : Bytes)
  /-- The send of a line is executed by its transport. -/
  | write (j : Nat)
  | disconnect
  | cancel (j : Nat)
  | clear (j : Nat)
  deriving DecidableEq

/-- `t.send(data)`; `none` if it throws. -/
def Transport.send (t : Transport) (data : Bytes) : Option Transport :=
  if t.cancelled then none else some { t with written := t.written ++ data }

/-- `try await t.send(data)`, then the next `await`. -/
def Transport.sendThen (t : Transport) (data : Bytes) (next : Handshake) : Transport :=
  match t.send data with
  | some t' => { t' with handshake := next }
  | none => { t with failed := true }

/-- One step of `connect` and `performAuth`; `none` where the call does not wait for this. -/
def Transport.resume (key : PrivateKey) (t : Transport) (e : Event) : Option Transport :=
  if t.failed || t.completed then none
  else match t.handshake, e with
    | _, .throws => some { t with failed := true }
    | .connecting, .ready => some { t with handshake := .version }
    | .version, .sendVersion => some (t.sendThen [kAuthVersionV3] .nonce)
    | .nonce, .receiveNonce nonce =>
      if nonce.length = kAuthNonceLen then some { t with handshake := .frame nonce } else none
    | .frame nonce, .sendFrame => some (t.sendThen (authFrame key nonce) (.result nonce))
    | .result nonce, .receiveResult result =>
      if result = kAuthResultOk then some { t with handshake := .capability nonce }
      else some { t with failed := true }
    | .capability nonce, .receiveCapability _ => some { t with handshake := .completed nonce }
    | _, _ => none

def step (key : PrivateKey) (s : State) : Action → Option State
  | .connect => some { s with transports := s.transports ++ [{}] }
  | .resume i e => match s.transports[i]? with
    | none => none
    | some t => (t.resume key e).map fun t' =>
      { s with
        transports := s.transports.set i t'
        transport := if e = .ready then some i else s.transport }
  | .sendLine line => match s.transport with
    | none => some s
    | some i => some { s with sends := s.sends ++ [(i, line ++ [LF])] }
  | .write j => match s.sends[j]? with
    | none => none
    | some (i, data) => match s.transports[i]? with
      | none => none
      | some t => some
        { s with
          transports := s.transports.set i ((t.send data).getD t)
          sends := s.sends.eraseIdx j }
  | .disconnect => match s.transport with
    | none => some s
    | some i => some { s with disconnects := s.disconnects ++ [.cancelling i] }
  | .cancel j => match s.disconnects[j]? with
    | some (.cancelling i) => match s.transports[i]? with
      | none => none
      | some t => some
        { s with
          transports := s.transports.set i { t with cancelled := true }
          disconnects := s.disconnects.set j .clearing }
    | _ => none
  | .clear j => match s.disconnects[j]? with
    | some .clearing => some { s with transport := none, disconnects := s.disconnects.eraseIdx j }
    | _ => none

/-! ## The framing -/

/-- What has been written, at each point of the handshake. -/
def WellFramed (key : PrivateKey) (t : Transport) : Prop :=
  match t.handshake with
  | .connecting | .version => t.written = []
  | .nonce | .frame _ => t.written = [kAuthVersionV3]
  | .result nonce | .capability nonce => t.written = kAuthVersionV3 :: authFrame key nonce
  | .completed nonce =>
    ∃ lines, t.written = kAuthVersionV3 :: authFrame key nonce ++ Lines.join LF lines

/-- `sendLine` finds no transport, or one whose handshake has completed. -/
def HandshakeDone (s : State) : Action → Prop
  | .sendLine _ => ∀ i ∈ s.transport, (s.transports[i]?).any (·.completed) = true
  | _ => True

instance (s : State) : ∀ a, Decidable (HandshakeDone s a)
  | .sendLine _ => by unfold HandshakeDone; infer_instance
  | .connect | .resume .. | .write _ | .disconnect | .cancel _ | .clear _ => isTrue trivial

variable {key : PrivateKey}

theorem length_authFrame (nonce : Bytes) : (authFrame key nonce).length = 97 := by
  simp [authFrame, key.length_publicKey, key.length_signature]

/-! ## What a step keeps -/

structure Invariant (key : PrivateKey) (s : State) : Prop where
  framed : ∀ t ∈ s.transports, WellFramed key t
  /-- Every waiting line is for a connection whose handshake has completed. -/
  sends : ∀ p ∈ s.sends, (s.transports[p.1]?).any (·.completed) = true ∧
    ∃ line, p.2 = line ++ [LF]

theorem sendThen_cases (t : Transport) (data : Bytes) (next : Handshake) :
    t.sendThen data next = { t with written := t.written ++ data, handshake := next } ∨
      t.sendThen data next = { t with failed := true } := by
  unfold Transport.sendThen Transport.send
  split
  · rename_i h
    split at h <;> cases h
    exact .inl rfl
  · exact .inr rfl

/-- Every step of the handshake keeps the framing. -/
theorem wellFramed_resume {t t' : Transport} {e : Event} (hw : WellFramed key t)
    (h : t.resume key e = some t') : WellFramed key t' := by
  unfold Transport.resume at h
  split at h
  · cases h
  · split at h
    · cases h
      exact hw
    · rename_i hs
      cases h
      simpa [WellFramed, hs] using hw
    · rename_i hs
      cases h
      simp only [WellFramed, hs] at hw
      rcases sendThen_cases t [kAuthVersionV3] .nonce with e | e
      · simp [e, WellFramed, hw]
      · simp [e, WellFramed, hs, hw]
    · rename_i hs
      split at h <;> cases h
      simpa [WellFramed, hs] using hw
    · rename_i nonce hs
      cases h
      simp only [WellFramed, hs] at hw
      rcases sendThen_cases t (authFrame key nonce) (.result nonce) with e | e
      · simp [e, WellFramed, hw]
      · simp [e, WellFramed, hs, hw]
    · rename_i hs
      simp only [WellFramed, hs] at hw
      split at h <;> cases h
      · simpa [WellFramed] using hw
      · simpa [WellFramed, hs] using hw
    · rename_i hs
      cases h
      simp only [WellFramed, hs] at hw
      exact ⟨[], by simpa using hw⟩
    · cases h

/-- A call that goes on has not completed its handshake. -/
theorem not_completed_of_resume {t t' : Transport} {e : Event} (h : t.resume key e = some t') :
    t.completed = false := by
  unfold Transport.resume at h
  split at h
  · cases h
  · simp_all

/-- A whole line written after the handshake keeps the framing. -/
theorem wellFramed_send {t : Transport} {line : Bytes} (hw : WellFramed key t)
    (hc : t.completed = true) : WellFramed key ((t.send (line ++ [LF])).getD t) := by
  unfold Transport.send
  split
  · exact hw
  · unfold Transport.completed at hc
    cases hs : t.handshake with
    | completed nonce =>
      simp only [WellFramed, hs] at hw ⊢
      obtain ⟨lines, hl⟩ := hw
      refine ⟨lines ++ [line], ?_⟩
      simp [hl]
    | _ => simp [hs] at hc

theorem completed_send {t : Transport} (data : Bytes) (hc : t.completed = true) :
    ((t.send data).getD t).completed = true := by
  unfold Transport.send
  split <;> exact hc

/-- A transport is replaced by one that is completed if it was. -/
theorem any_completed_set {ts : List Transport} {i k : TransportId} {t t' : Transport}
    (ht : ts[i]? = some t) (hc : t.completed = true → t'.completed = true)
    (h : (ts[k]?).any (·.completed) = true) : ((ts.set i t')[k]?).any (·.completed) = true := by
  by_cases hk : k = i
  · subst hk
    rw [ht] at h
    rw [List.getElem?_set_self (List.getElem?_eq_some_iff.mp ht).1]
    exact hc h
  · rwa [List.getElem?_set_ne (Ne.symm hk)]

theorem invariant_set {s : State} {i : TransportId} {t t' : Transport} (hi : Invariant key s)
    (ht : s.transports[i]? = some t) (hw : WellFramed key t')
    (hc : t.completed = true → t'.completed = true) :
    Invariant key { s with transports := s.transports.set i t' } where
  framed u hu := by
    rcases List.mem_or_eq_of_mem_set hu with hu | rfl
    · exact hi.framed u hu
    · exact hw
  sends p hp := ⟨any_completed_set ht hc (hi.sends p hp).1, (hi.sends p hp).2⟩

theorem any_completed_append {ts us : List Transport} {k : TransportId}
    (h : (ts[k]?).any (·.completed) = true) : ((ts ++ us)[k]?).any (·.completed) = true := by
  cases ht : ts[k]? with
  | none => simp [ht] at h
  | some t =>
    rw [List.getElem?_append_left (List.getElem?_eq_some_iff.mp ht).1]
    exact h

theorem invariant_step {s s' : State} {a : Action} (hi : Invariant key s)
    (hc : HandshakeDone s a) (h : step key s a = some s') : Invariant key s' := by
  cases a with
  | connect =>
    cases h
    refine ⟨fun t ht => ?_, fun p hp =>
      ⟨any_completed_append (hi.sends p hp).1, (hi.sends p hp).2⟩⟩
    rcases List.mem_append.mp ht with ht | ht
    · exact hi.framed t ht
    · cases List.mem_singleton.mp ht
      rfl
  | resume i e =>
    simp only [step] at h
    split at h
    · cases h
    · rename_i t ht
      obtain ⟨t', he, rfl⟩ := Option.map_eq_some_iff.mp h
      have hw := wellFramed_resume (hi.framed t (List.mem_of_getElem? ht)) he
      have hi' := invariant_set hi ht hw (by simp [not_completed_of_resume he])
      exact ⟨hi'.framed, hi'.sends⟩
  | sendLine line =>
    simp only [step] at h
    split at h
    · cases h
      exact hi
    · rename_i i hi'
      cases h
      refine ⟨hi.framed, fun p hp => ?_⟩
      rcases List.mem_append.mp hp with hp | hp
      · exact hi.sends p hp
      · cases List.mem_singleton.mp hp
        exact ⟨hc i hi', line, rfl⟩
  | write j =>
    simp only [step] at h
    split at h
    · cases h
    · rename_i i data hj
      split at h
      · cases h
      · rename_i t ht
        cases h
        obtain ⟨hd, line, rfl⟩ := hi.sends _ (List.mem_of_getElem? hj)
        have hd : t.completed = true := by simpa [ht] using hd
        have hw : WellFramed key ((t.send (line ++ [LF])).getD t) :=
          wellFramed_send (hi.framed t (List.mem_of_getElem? ht)) hd
        have hi' := invariant_set hi ht hw fun _ => completed_send _ hd
        exact ⟨hi'.framed, fun p hp => hi'.sends p (List.mem_of_mem_eraseIdx hp)⟩
  | disconnect =>
    simp only [step] at h
    split at h <;> cases h
    · exact hi
    · exact ⟨hi.framed, hi.sends⟩
  | cancel j =>
    simp only [step] at h
    split at h
    · split at h
      · cases h
      · rename_i t ht
        cases h
        have hw : WellFramed key { t with cancelled := true } :=
          hi.framed t (List.mem_of_getElem? ht)
        have hi' := invariant_set hi ht hw id
        exact ⟨hi'.framed, hi'.sends⟩
    · cases h
  | clear j =>
    simp only [step] at h
    split at h <;> cases h
    exact ⟨hi.framed, hi.sends⟩

/-- **The handshake is well framed.** On every connection the version byte is followed by
the frame of 97 bytes and then by whole lines, and no line is written before the handshake
has completed, in every run in which `sendLine` finds no handshake still going on. -/
theorem wellFramed_of_run {as : List Action} {s : State}
    (hm : Meets (step key) HandshakeDone {} as) (hr : run (step key) {} as = some s) :
    (∀ nonce, (authFrame key nonce).length = 97) ∧ ∀ t ∈ s.transports, WellFramed key t :=
  ⟨length_authFrame, (invariant_of_meets (fun _ _ _ hi hc h => invariant_step hi hc h)
    ⟨by simp, by simp⟩ hm hr).framed⟩

/-! ## Two runs -/

def keyA : PrivateKey where
  publicKey := List.replicate 32 7
  signature _ := List.replicate 64 9
  length_publicKey := by decide
  length_signature := by simp

def nonceA : Bytes := List.replicate 32 1

def announceLine : Bytes := ascii "X null"

/-- A whole handshake of the transport `i`. -/
def handshake (i : TransportId) : List Action :=
  [.resume i .ready, .resume i .sendVersion, .resume i (.receiveNonce nonceA),
    .resume i .sendFrame, .resume i (.receiveResult kAuthResultOk),
    .resume i (.receiveCapability kCapNone)]

/-- The session is lost; the path monitor announces the addresses while the handshake of
the next connection waits for the nonce. -/
def announceInHandshake : List Action :=
  .connect :: handshake 0 ++ [.disconnect, .cancel 0, .clear 0, .connect, .resume 1 .ready,
    .resume 1 .sendVersion, .sendLine announceLine, .write 0]

/-- The line is written after the version byte, where the server expects the frame. -/
theorem line_in_handshake :
    ∃ s t, run (step keyA) {} announceInHandshake = some s ∧ t ∈ s.transports ∧
      t.written = kAuthVersionV3 :: announceLine ++ [LF] ∧ ¬ WellFramed keyA t := by
  let t : Transport :=
    { handshake := .nonce, written := kAuthVersionV3 :: announceLine ++ [LF] }
  have ht : ((run (step keyA) {} announceInHandshake).map fun s => s.transports[1]?) =
      some (some t) := by decide +kernel
  obtain ⟨s, hs, hget⟩ := Option.map_eq_some_iff.mp ht
  refine ⟨s, t, hs, List.mem_of_getElem? hget, rfl, ?_⟩
  simp only [WellFramed, t]
  decide

/-- After the handshake the line is the first of the connection. -/
theorem wellFramed_announce :
    ∃ s, run (step keyA) {} (.connect :: handshake 0 ++ [.sendLine announceLine, .write 0]) =
      some s ∧ ∀ t ∈ s.transports, WellFramed keyA t := by
  obtain ⟨s, hs⟩ := Option.isSome_iff_exists.mp (show (run (step keyA) {}
    (.connect :: handshake 0 ++ [.sendLine announceLine, .write 0])).isSome = true by
      decide +kernel)
  exact ⟨s, hs, (wellFramed_of_run (by decide +kernel) hs).2⟩

end TrafficMonitor.WireClient
