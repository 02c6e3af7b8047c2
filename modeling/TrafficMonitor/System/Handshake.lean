import TrafficMonitor.Basic.Duplex

/-!
# The authentication handshake

`performClientAuth` is the client, `verifyClientAuth` the server, each as a program on the
connection between them. The signature scheme is a parameter. A client of version 2 follows
the message sequence that the protocol documents for it.

Proved here:

* `verifyResponse_eq`: the server accepts a response exactly if its key is listed and its
  signature verifies over the nonce of the run;
* `run_v3`, `run_v2`: one run of each handshake, to its end;
* `handshake_agrees`: every run ends, with nothing left on the connection, and both sides agree.
-/

namespace TrafficMonitor.Handshake

open Bytes Runs

def kAuthVersionV2 : UInt8 := 2
def kAuthVersionV3 : UInt8 := 3
def kAuthResultOk : UInt8 := 0x00
def kAuthResultReject : UInt8 := 0x01
def kAuthPubkeyLen : Nat := 32
def kAuthSignatureLen : Nat := 64
def kAuthNonceLen : Nat := 32
def kAuthSignPrefixV2 : Bytes := ascii "NTM-AUTH-v2"
def kCapNone : UInt8 := 0x00
def kCapZlib : UInt8 := 0x01

/-! ## The server -/

/-- The allow-list. The server does not start without a key, and keys are only added to a running
server. -/
structure AllowedClientsStore where
  keys : List Bytes
  nonempty : keys ≠ []

/-- The check at start-up of the keys that were loaded. -/
def startStore (loaded : List Bytes) : Option AllowedClientsStore :=
  if h : loaded = [] then none else some ⟨loaded, h⟩

/-- A client is registered. -/
def AllowedClientsStore.insert (store : AllowedClientsStore) (rawKey : Bytes) :
    AllowedClientsStore :=
  if rawKey ∈ store.keys then store else ⟨rawKey :: store.keys, List.cons_ne_nil _ _⟩

/-- The keys are compared one by one, without an early exit. -/
def allowedKeysContains (keys : List Bytes) (needle : Bytes) : Bool :=
  if needle.length ≠ kAuthPubkeyLen then false
  else keys.foldl (fun found k =>
    if k.length ≠ kAuthPubkeyLen then found else found || k == needle) false

variable (verify : Bytes → Bytes → Bytes → Bool)

/-- The key and the signature of a response: the client id, or nothing if they are refused. -/
def verifyResponse (keys : List Bytes) (nonce resp : Bytes) : Bytes :=
  let pubkeyRaw := resp.take kAuthPubkeyLen
  let sig := (resp.drop kAuthPubkeyLen).take kAuthSignatureLen
  if !allowedKeysContains keys pubkeyRaw then []
  else if !verify pubkeyRaw (kAuthSignPrefixV2 ++ nonce) sig then []
  else hex pubkeyRaw

structure AuthResult where
  clientId : Bytes := []
  attemptedVersion : UInt8 := 0
  negotiatedCaps : UInt8 := kCapNone
  isV3 : Bool := false
  deriving DecidableEq, Repr

/-- `verifyClientAuth` once the version byte has been read. -/
def verifyVersion (keys : List Bytes) (nonce : Bytes) (version : UInt8) : Proc AuthResult :=
  if version = kAuthVersionV2 then
    .write nonce <| .read (kAuthPubkeyLen + kAuthSignatureLen) fun
      | none => .ret {}
      | some resp => .ret { clientId := verifyResponse verify keys nonce resp }
  else if version = kAuthVersionV3 then
    .write nonce <| .read (kAuthPubkeyLen + kAuthSignatureLen + 1) fun
      | none => .ret {}
      | some resp =>
        let clientId := verifyResponse verify keys nonce resp
        if clientId = [] then .ret {}
        else
          let clientCaps := resp.getD (kAuthPubkeyLen + kAuthSignatureLen) 0
          .ret {
            clientId := clientId
            negotiatedCaps := clientCaps &&& kCapZlib
            isV3 := true }
  else .ret { attemptedVersion := version }

/-- The nonce is drawn when the version is known. -/
def verifyClientAuth (keys : List Bytes) (nonce : Bytes) : Proc AuthResult :=
  if keys = [] then .ret {}
  else .read 1 fun
    | none => .ret {}
    | some version => verifyVersion verify keys nonce (version.headD 0)

/-- What becomes of the connection: it is closed, with the version byte recorded if it is not
known, or the data phase begins. -/
inductive ServerEnd
  | rejected (attemptedVersion : UInt8)
  | accepted (clientId : Bytes) (inflate : Bool)
  deriving DecidableEq, Repr

/-- `connectionThread` from the result of the authentication to the data phase. -/
def answer (r : AuthResult) : Proc ServerEnd :=
  if r.clientId = [] then .write [kAuthResultReject] (.ret (.rejected r.attemptedVersion))
  else .write [kAuthResultOk] <|
    let accepted := Proc.ret (.accepted r.clientId (r.negotiatedCaps &&& kCapZlib ≠ 0))
    if r.isV3 then .write [r.negotiatedCaps] accepted else accepted

def server (keys : List Bytes) (nonce : Bytes) : Proc ServerEnd :=
  (verifyClientAuth verify keys nonce).bind answer

/-! ## The client -/

/-- The key pair from the identity file. -/
structure Identity where
  pubkey : Bytes
  sign : Bytes → Bytes
  length_pubkey : pubkey.length = kAuthPubkeyLen
  length_sign : ∀ m, (sign m).length = kAuthSignatureLen

/-- `performClientAuth`: the negotiated capabilities, or the error. Without an identity file there
is no handshake. -/
def performClientAuth (identity : Option Identity) (requestCompression : Bool) :
    Proc (Except String UInt8) :=
  match identity with
  | none => .ret (.ok kCapNone)
  | some identity =>
    .write [kAuthVersionV3] <| .read kAuthNonceLen fun
      | none => .ret (.error "failed to read auth nonce")
      | some nonce =>
        let sig := identity.sign (kAuthSignPrefixV2 ++ nonce)
        let clientCaps := if requestCompression then kCapZlib else kCapNone
        .write (identity.pubkey ++ sig ++ [clientCaps]) <| .read 1 fun
          | none => .ret (.error "failed to read auth result")
          | some result =>
            if result.headD 0xff ≠ kAuthResultOk then
              .ret (.error "server rejected authentication (key not in server allowed list?)")
            else .read 1 fun
              | none => .ret (.error "failed to read negotiated capabilities from server")
              | some caps => .ret (.ok (caps.headD kCapNone))

/-- `connectUnlocked`: whether the data phase is compressed, or the error. -/
def connectUnlocked (identity : Option Identity) (useCompression : Bool) :
    Proc (Except String Bool) :=
  (performClientAuth identity useCompression).bind fun r =>
    .ret (r.map fun caps => caps &&& kCapZlib ≠ 0)

/-- The message sequence of version 2, without a capability byte. -/
def legacyClientAuth (identity : Identity) : Proc (Except String Bool) :=
  .write [kAuthVersionV2] <| .read kAuthNonceLen fun
    | none => .ret (.error "no nonce")
    | some nonce =>
      .write (identity.pubkey ++ identity.sign (kAuthSignPrefixV2 ++ nonce)) <| .read 1 fun
        | none => .ret (.error "no result")
        | some result =>
          if result.headD 0xff ≠ kAuthResultOk then .ret (.error "rejected") else .ret (.ok false)

inductive Client
  | v2
  | v3 (useCompression : Bool)
  deriving DecidableEq, Repr

def Client.program (identity : Identity) : Client → Proc (Except String Bool)
  | .v2 => legacyClientAuth identity
  | .v3 useCompression => connectUnlocked (some identity) useCompression

/-- Before the handshake. -/
def start (store : AllowedClientsStore) (nonce : Bytes) (identity : Identity) (client : Client) :
    Duplex (Except String Bool) ServerEnd :=
  { left := client.program identity, right := server verify store.keys nonce }

/-! ## The response -/

/-- The check of the keys finds the keys of the right length. -/
theorem allowedKeysContains_iff {keys : List Bytes} {needle : Bytes} :
    allowedKeysContains keys needle = true ↔ needle.length = kAuthPubkeyLen ∧ needle ∈ keys := by
  unfold allowedKeysContains
  by_cases hlen : needle.length = kAuthPubkeyLen
  · rw [if_neg (not_not.mpr hlen)]
    have hfold : ∀ found : Bool, keys.foldl (fun found k =>
        if k.length ≠ kAuthPubkeyLen then found else found || k == needle) found = true ↔
          found = true ∨ needle ∈ keys := by
      induction keys with
      | nil => simp
      | cons k keys ih =>
        intro found
        rw [List.foldl_cons, ih, List.mem_cons]
        by_cases hk : k.length = kAuthPubkeyLen
        · rw [if_neg (not_not.mpr hk), Bool.or_eq_true, beq_iff_eq, eq_comm (a := k), or_assoc]
        · have hne : needle ≠ k := fun he => hk (he ▸ hlen)
          rw [if_pos hk, or_iff_right hne]
    rw [hfold]
    simp [hlen]
  · rw [if_pos hlen]
    simp [hlen]

/-- The key is listed, and its signature over the prefix and the nonce verifies. -/
def Accepts (keys : List Bytes) (nonce : Bytes) (identity : Identity) : Prop :=
  identity.pubkey ∈ keys ∧
    verify identity.pubkey (kAuthSignPrefixV2 ++ nonce)
      (identity.sign (kAuthSignPrefixV2 ++ nonce)) = true

instance (keys : List Bytes) (nonce : Bytes) (identity : Identity) :
    Decidable (Accepts verify keys nonce identity) := inferInstanceAs (Decidable (_ ∧ _))

variable {verify} (keys : List Bytes) (nonce : Bytes) (identity : Identity)

/-- **The response of a client.** -/
theorem verifyResponse_eq (more : Bytes) :
    verifyResponse verify keys nonce
        (identity.pubkey ++ identity.sign (kAuthSignPrefixV2 ++ nonce) ++ more) =
      if Accepts verify keys nonce identity then hex identity.pubkey else [] := by
  have hkey := identity.length_pubkey
  have hsig := identity.length_sign (kAuthSignPrefixV2 ++ nonce)
  unfold verifyResponse Accepts
  rw [List.append_assoc, List.take_left' hkey, List.drop_left' hkey, List.take_left' hsig]
  by_cases hmem : identity.pubkey ∈ keys
  · have hc := allowedKeysContains_iff.mpr ⟨hkey, hmem⟩
    by_cases hv : verify identity.pubkey (kAuthSignPrefixV2 ++ nonce)
      (identity.sign (kAuthSignPrefixV2 ++ nonce)) = true <;> simp [hc, hmem, hv]
  · have hc : allowedKeysContains keys identity.pubkey = false := by
      rw [← Bool.not_eq_true]
      exact fun h => hmem (allowedKeysContains_iff.mp h).2
    simp [hc, hmem]

theorem hex_pubkey_ne_nil : hex identity.pubkey ≠ [] := by
  intro h
  have hlen := length_hex identity.pubkey
  rw [h, identity.length_pubkey] at hlen
  cases hlen

/-! ## One run -/

/-- The client has offered zlib. -/
def Client.offersZlib : Client → Bool
  | .v2 => false
  | .v3 useCompression => useCompression

def Client.refused : Client → String
  | .v2 => "rejected"
  | .v3 _ => "server rejected authentication (key not in server allowed list?)"

variable (verify) in
/-- The end of a handshake: nothing is left on the connection. -/
def finish (client : Client) : Duplex (Except String Bool) ServerEnd :=
  if Accepts verify keys nonce identity then
    { left := .ret (.ok client.offersZlib)
      right := .ret (.accepted (hex identity.pubkey) client.offersZlib) }
  else { left := .ret (.error client.refused), right := .ret (.rejected 0) }

theorem finish_stuck (client : Client) :
    (finish verify keys nonce identity client).Stuck := by
  unfold finish
  split
  · exact Duplex.stuck_of_ret _ _ [] []
  · exact Duplex.stuck_of_ret _ _ [] []

variable {keys nonce identity}

/-- The exchange of a handshake, up to the response of the client. -/
private theorem run_response {p : Proc (Except String Bool)} {version : UInt8} {n : Nat}
    {next : Option Bytes → Proc AuthResult} {e : Duplex (Except String Bool) ServerEnd}
    {k : Option Bytes → Proc (Except String Bool)} {resp : Bytes} {sides : List Side}
    (hkeys : keys ≠ []) (hn : nonce.length = kAuthNonceLen)
    (hv : verifyVersion verify keys nonce version = .write nonce (.read n next))
    {r : AuthResult} (hp : k (some nonce) = .write resp p) (hresp : resp.length = n)
    (hr : next (some resp) = .ret r)
    (h : run Duplex.step ⟨p, answer r, [], []⟩ sides = some e) :
    run Duplex.step
        ⟨.write [version] (.read kAuthNonceLen k), server verify keys nonce, [], []⟩
        (.left :: .right :: .right :: .left :: .left :: .right :: sides) = some e := by
  let q : Option Bytes → Proc ServerEnd := fun s =>
    Proc.bind (match s with
      | none => .ret {}
      | some version => verifyVersion verify keys nonce (version.headD 0)) answer
  have hserver : server verify keys nonce = .read 1 q := by
    rw [server, verifyClientAuth, if_neg hkeys]
    rfl
  have hq : q (some [version]) = .write nonce (.read n fun s => (next s).bind answer) := by
    change (verifyVersion verify keys nonce version).bind answer = _
    rw [hv]
    rfl
  rw [hserver]
  refine run_cons_eq_some.mpr ⟨_, Duplex.step_left_write .., ?_⟩
  refine run_cons_eq_some.mpr ⟨_, Duplex.step_right_read rfl .., ?_⟩
  rw [List.nil_append, hq]
  refine run_cons_eq_some.mpr ⟨_, Duplex.step_right_write .., ?_⟩
  refine run_cons_eq_some.mpr ⟨_, Duplex.step_left_read hn .., ?_⟩
  rw [hp]
  refine run_cons_eq_some.mpr ⟨_, Duplex.step_left_write .., ?_⟩
  refine run_cons_eq_some.mpr ⟨_, Duplex.step_right_read hresp .., ?_⟩
  rw [hr]
  exact h

variable (keys nonce identity) (store : AllowedClientsStore)

/-- **A handshake of version 3.** -/
theorem run_v3 (hn : nonce.length = kAuthNonceLen) (useCompression : Bool) :
    ∃ sides, run Duplex.step (start verify store nonce identity (.v3 useCompression)) sides =
      some (finish verify store.keys nonce identity (.v3 useCompression)) := by
  have hkey := identity.length_pubkey
  have hsig := identity.length_sign (kAuthSignPrefixV2 ++ nonce)
  have hid := hex_pubkey_ne_nil identity
  let caps := if useCompression then kCapZlib else kCapNone
  let resp := identity.pubkey ++ identity.sign (kAuthSignPrefixV2 ++ nonce) ++ [caps]
  have hresp : resp.length = kAuthPubkeyLen + kAuthSignatureLen + 1 := by
    simp only [resp, List.length_append, hkey, hsig, List.length_singleton]
  have hcaps : resp.getD (kAuthPubkeyLen + kAuthSignatureLen) 0 = caps := by
    rw [← hkey, ← hsig, ← List.length_append]
    simp [resp]
  have hmask : caps &&& kCapZlib = caps := by cases useCompression <;> decide
  have hoffer : decide (caps &&& kCapZlib ≠ 0) = useCompression := by
    cases useCompression <;> decide
  by_cases hacc : Accepts verify store.keys nonce identity
  · -- the result and the capability byte
    refine ⟨[.left, .right, .right, .left, .left, .right, .right, .right, .left, .left], ?_⟩
    refine run_response (r := ⟨hex identity.pubkey, 0, caps, true⟩) store.nonempty hn rfl rfl hresp
      ?_ ?_
    · simp only [verifyResponse_eq, hacc, ↓reduceIte, hid]
      rw [hcaps, hmask]
    · rw [answer, if_neg hid, finish, if_pos hacc, Client.offersZlib, ← hoffer]
      rfl
  · refine ⟨[.left, .right, .right, .left, .left, .right, .right, .left], ?_⟩
    refine run_response (r := {}) store.nonempty hn rfl rfl hresp ?_ ?_
    · simp only [verifyResponse_eq, hacc, ↓reduceIte]
    · rw [finish, if_neg hacc]
      rfl

/-- **A handshake of version 2.** -/
theorem run_v2 (hn : nonce.length = kAuthNonceLen) :
    ∃ sides, run Duplex.step (start verify store nonce identity .v2) sides =
      some (finish verify store.keys nonce identity .v2) := by
  have hid := hex_pubkey_ne_nil identity
  let resp := identity.pubkey ++ identity.sign (kAuthSignPrefixV2 ++ nonce)
  have hresp : resp.length = kAuthPubkeyLen + kAuthSignatureLen := by
    rw [List.length_append, identity.length_pubkey, identity.length_sign]
  have hverify := @verifyResponse_eq verify store.keys nonce identity []
  rw [List.append_nil] at hverify
  by_cases hacc : Accepts verify store.keys nonce identity
  · refine ⟨[.left, .right, .right, .left, .left, .right, .right, .left], ?_⟩
    refine run_response (r := { clientId := hex identity.pubkey }) store.nonempty hn rfl rfl hresp
      ?_ ?_
    · simp only [hverify, hacc, ↓reduceIte]
    · have hnone : decide (kCapNone &&& kCapZlib ≠ 0) = false := by decide
      simp only [answer, hid, hnone, finish, hacc, ↓reduceIte]
      rfl
  · refine ⟨[.left, .right, .right, .left, .left, .right, .right, .left], ?_⟩
    refine run_response (r := {}) store.nonempty hn rfl rfl hresp ?_ ?_
    · simp only [hverify, hacc, ↓reduceIte]
    · rw [finish, if_neg hacc]
      rfl

/-- One run of each handshake comes to its end. -/
theorem run_finish (hn : nonce.length = kAuthNonceLen) (client : Client) :
    ∃ sides, run Duplex.step (start verify store nonce identity client) sides =
      some (finish verify store.keys nonce identity client) := by
  cases client with
  | v2 => exact run_v2 nonce identity store hn
  | v3 useCompression => exact run_v3 nonce identity store hn useCompression

/-! ## Every run -/

/-- **Authentication agreement.** In whatever order the two sides move: the run can be continued
until neither side can move, and then nothing is left on the connection in either direction; the
server has accepted exactly if the key is in the allow-list and the signature verifies over the
nonce of the run; the client id is the hex of the key; a client that is accepted takes the data
phase for compressed exactly if the server does, which is if it has offered zlib; and a client
that is refused knows that it is. -/
theorem handshake_agrees (verify : Bytes → Bytes → Bytes → Bool) (store : AllowedClientsStore)
    (nonce : Bytes) (identity : Identity) (client : Client) (sides : List Side)
    (d : Duplex (Except String Bool) ServerEnd) (hn : nonce.length = kAuthNonceLen)
    (h : run Duplex.step (start verify store nonce identity client) sides = some d) :
    (∃ sides' e, run Duplex.step d sides' = some e ∧ e.Stuck) ∧
      (d.Stuck → d.toRight = [] ∧ d.toLeft = [] ∧ ∃ c s, d.left = .ret c ∧ d.right = .ret s ∧
        ((∃ clientId inflate, s = .accepted clientId inflate) ↔
          identity.pubkey ∈ store.keys ∧
            verify identity.pubkey (kAuthSignPrefixV2 ++ nonce)
              (identity.sign (kAuthSignPrefixV2 ++ nonce)) = true) ∧
        (∀ clientId inflate, s = .accepted clientId inflate →
          clientId = hex identity.pubkey ∧ c = .ok inflate ∧ (inflate ↔ client = .v3 true)) ∧
        (∀ attemptedVersion, s = .rejected attemptedVersion → ∃ err, c = .error err)) := by
  obtain ⟨done, hdone⟩ : ∃ sides, run Duplex.step (start verify store nonce identity client) sides =
      some (finish verify store.keys nonce identity client) := run_finish nonce identity store hn client
  have hstuck : (finish verify store.keys nonce identity client).Stuck :=
    finish_stuck store.keys nonce identity client
  constructor
  · obtain ⟨sides', -, hrun⟩ := Duplex.run_of_ended hdone hstuck h
    exact ⟨sides', _, hrun, hstuck⟩
  · intro hd
    rw [Duplex.eq_of_stuck hdone hstuck h hd]
    have hoffer : client.offersZlib = true ↔ client = .v3 true := by
      cases client <;> simp [Client.offersZlib]
    unfold finish
    split
    · rename_i hacc
      refine ⟨rfl, rfl, _, _, rfl, rfl, ⟨fun _ => hacc, fun _ => ⟨_, _, rfl⟩⟩, ?_, ?_⟩
      · rintro clientId inflate he
        injection he with hid hinf
        subst hid hinf
        exact ⟨rfl, rfl, hoffer⟩
      · rintro attemptedVersion he
        cases he
    · rename_i hacc
      refine ⟨rfl, rfl, _, _, rfl, rfl, ⟨?_, fun hk => absurd hk hacc⟩, ?_, ?_⟩
      · rintro ⟨clientId, inflate, he⟩
        cases he
      · rintro clientId inflate he
        cases he
      · exact fun _ _ => ⟨_, rfl⟩

/-- A listed key, with compression. -/
theorem handshake_agrees_listed :
    let identity : Identity :=
      ⟨List.replicate 32 7, fun _ => List.replicate 64 9, rfl, fun _ => rfl⟩
    let verify : Bytes → Bytes → Bytes → Bool := fun _ _ sig => sig == List.replicate 64 9
    ∃ store d, startStore [List.replicate 32 7] = some store ∧
      run Duplex.step (start verify store (List.replicate 32 5) identity (.v3 true))
        [.left, .right, .right, .left, .left, .right, .right, .right, .left, .left] = some d ∧
      d.toRight = [] ∧ d.toLeft = [] := by
  intro identity verify
  refine ⟨⟨[List.replicate 32 7], by simp⟩, _, rfl, rfl, ?_⟩
  have h := (handshake_agrees verify ⟨[List.replicate 32 7], by simp⟩ (List.replicate 32 5) identity
    (.v3 true) [.left, .right, .right, .left, .left, .right, .right, .right, .left, .left] _ rfl
    rfl).2 (Duplex.stuck_of_ret _ _ _ _)
  exact ⟨h.1, h.2.1⟩

end TrafficMonitor.Handshake
