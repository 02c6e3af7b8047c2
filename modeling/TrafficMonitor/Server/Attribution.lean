import TrafficMonitor.Server.Sessions

/-!
# Attribution of LAN addresses

The endpoint of a D-line that carries a private address is attributed to the client that
has registered the address. Private addresses repeat across sites, so what the registry is
for is a table for each LAN group: the clients that announced one external address
(`Scoped.lookup`, over the announcements that were made).

Proved here, for every run of any sessions:

* `packet_of_line`: a D-line is recorded with the entities of `entityForIp`;
* `attribution_scoped`: an address that no two LAN groups share is attributed as that table
  says, whatever the clients of other groups announced.

The registry of the code is one table for all groups: `foreign_client_is_named` is a run in
which a client at one site is named for an address of another.
-/

namespace TrafficMonitor.Sessions

open Bytes Runs

variable {config : ServerConfig}

/-- The two clients have announced one external address. -/
def SameLan (s : State) (c d : ClientId) : Prop :=
  ∃ ext, ext ≠ kExtIPNull ∧ s.shared.registry.clientToExternalIp c = some ext ∧
    s.shared.registry.clientToExternalIp d = some ext

/-- The LAN group that the announcements put a client in. -/
def lanOf (s : State) (c : ClientId) : Scoped.Scope ClientId Bytes :=
  (Scoped.after s.shared.announcements).scopeOf c

/-- The announcements of a client's own LAN group. -/
def ownAnnouncements (s : State) (c : ClientId) : ClientRegistry.History :=
  s.shared.announcements.filter fun e => Scoped.neighbour s.shared.announcements c e.host

/-- The session's copy of the registry is up to date for the address, and the address has
been kept apart: no other LAN group held it when it was last registered, and none holds it
now. -/
structure KeptApart (s : State) (se : Session) (ip : Bytes) : Prop where
  current : se.localRegSnap ip = s.shared.registry.ipToClientId ip
  separate : Scoped.Separate s.shared.announcements ip
  free : Scoped.FreeElsewhere s.shared.announcements (lanOf s se.clientId) ip

/-- The endpoint is named within the LAN group of the session's client: by the client that
the group's own announcements give, which is registered with the address and is the
session's client or shares its external address, or else by the external address. -/
structure NamedInLan (s : State) (se : Session) (ip entity : Bytes) : Prop where
  own : entity = (Scoped.lookup (ownAnnouncements s se.clientId) se.clientId ip).getD
    (ascii "@[" ++ se.localExternalIp ++ ascii "]:" ++ ip)
  registered : ∀ d, se.attributed ip = some d → s.shared.registry.ipToClientId ip = some d ∧
    (d = se.clientId ∨ SameLan s se.clientId d)

/-- What a D-line records is what `Session.packet` makes of it. -/
theorem packet_of_line {s s' : State} {i : SessionId} {se : Session} {ev : LineEvent}
    {m : PacketMeta} {pkt : Packet} (hse : s.sessions[i]? = some se)
    (hm : se.readLine config ev = .data m) (hs : step config s (.session i (.line ev)) = some s')
    (hp : s'.shared.packets = s.shared.packets ++ [pkt]) : pkt = se.packet ev.resolver m := by
  obtain ⟨se', p, hse', _, rfl⟩ := step_session_eq_some.mp hs
  rw [hse, Option.some.injEq] at hse'
  subst hse'
  simp only [Session.effect, Session.handle, hm] at hp
  split at hp
  · simp at hp
  · simpa using hp.symm

/-- Clients in one scope are one client, or share an external address. -/
theorem sameLan_of_scope {s : State} {c d : ClientId}
    (hr : s.shared.registry.Reflects s.shared.announcements) (h : lanOf s d = lanOf s c) :
    d = c ∨ SameLan s c d := by
  have hext : ∀ {k x}, ClientRegistry.siteOfExt (s.shared.registry.clientToExternalIp k) = some x →
      x ≠ kExtIPNull ∧ s.shared.registry.clientToExternalIp k = some x := by
    intro k x hx
    obtain ⟨hk, hne⟩ := Option.filter_eq_some_iff.mp hx
    exact ⟨by simpa using hne, hk⟩
  simp only [lanOf, Scoped.Registry.scopeOf, hr.site] at h
  cases hc : ClientRegistry.siteOfExt (s.shared.registry.clientToExternalIp c) with
  | none =>
    cases hd : ClientRegistry.siteOfExt (s.shared.registry.clientToExternalIp d) with
    | none =>
      simp only [hc, hd, Option.elim_none, Scoped.Scope.solo.injEq] at h
      exact .inl h
    | some x => simp [hc, hd] at h
  | some x =>
    cases hd : ClientRegistry.siteOfExt (s.shared.registry.clientToExternalIp d) with
    | none => simp [hc, hd] at h
    | some y =>
      simp only [hc, hd, Option.elim_some, Scoped.Scope.site.injEq] at h
      subst h
      exact .inr ⟨y, (hext hc).1, (hext hc).2, (hext hd).2⟩

/-- An address that is kept apart is named within the LAN group. -/
theorem namedInLan {as : List Action} {s : State} {se : Session} {ip : Bytes}
    (hr : run (step config) {} as = some s) (hlan : isLanIP ip = true) (hk : KeptApart s se ip)
    (resolver : Option Resolver) : NamedInLan s se ip (se.entityForIp resolver ip) := by
  have hrefl := reflects_of_run hr
  have hattr : se.attributed ip = Scoped.flat s.shared.announcements ip := by
    simp [Session.attributed, hlan, hk.current, hrefl.flat]
  have hlookup := Scoped.flat_eq_lookup hk.separate hk.free
  refine ⟨?_, fun d hd => ⟨?_, ?_⟩⟩
  · simp only [Session.entityForIp, hlan, ↓reduceIte]
    rw [hattr, hlookup, ownAnnouncements, Scoped.lookup_own]
  · rw [hrefl.flat, ← hattr, hd]
  · apply sameLan_of_scope hrefl
    rw [hattr, hlookup] at hd
    exact Scoped.holder_scope _ hd

/-- **Attribution is scoped.** In every run, the LAN endpoints of a recorded D-line that are
kept apart are named within the LAN group of the line's client. -/
theorem attribution_scoped {as : List Action} {s s' : State} {i : SessionId} {se : Session}
    {ev : LineEvent} {m : PacketMeta} {pkt : Packet} (hr : run (step config) {} as = some s)
    (hse : s.sessions[i]? = some se) (hm : se.readLine config ev = .data m)
    (hs : step config s (.session i (.line ev)) = some s')
    (hp : s'.shared.packets = s.shared.packets ++ [pkt]) :
    (isLanIP m.srcIp = true → KeptApart s se m.srcIp → NamedInLan s se m.srcIp pkt.srcEntity) ∧
    (isLanIP m.dstIp = true → KeptApart s se m.dstIp → NamedInLan s se m.dstIp pkt.dstEntity) := by
  rw [packet_of_line hse hm hs hp]
  exact ⟨fun hlan hk => namedInLan hr hlan hk _, fun hlan hk => namedInLan hr hlan hk _⟩

/-! ## Two runs -/

/-- A client comes up, announces its external address and one of its own, 192.168.1.10. -/
def announcer (i : SessionId) (id : ClientId) (ext : Bytes) : List Action :=
  comesUp i id ext ++ [.session i (.line { nowSec := 100, text := ascii "X " ++ ext }),
    .session i .takeSnapshot,
    .session i (.line { nowSec := 100, text := ascii "A 192.168.1.10" })]

/-- A client at another site comes up and announces its external address. -/
def bystander (i : SessionId) (id : ClientId) (ext : Bytes) : List Action :=
  comesUp i id ext ++ [.session i (.line { nowSec := 100, text := ascii "X " ++ ext }),
    .session i .takeSnapshot]

/-- A flow from 192.168.1.10. -/
def flow : LineEvent := { nowSec := 101, text := ascii "D eth0 192.168.1.10 192.0.2.80 1500" }

def flowMeta : PacketMeta := ⟨ascii "eth0", ascii "192.168.1.10", ascii "192.0.2.80", 1500⟩

/-- What one line of a session finds and leaves after a run, evaluated. -/
private theorem exists_line (as : List Action) (i : SessionId) (ev : LineEvent)
    (P : State → Session → State → Prop) [∀ s se s', Decidable (P s se s')]
    (h : ((run (step {}) {} as).bind fun s => (s.sessions[i]?).bind fun se =>
      (step {} s (.session i (.line ev))).map fun s' => decide (P s se s')) = some true) :
    ∃ s se s', run (step {}) {} as = some s ∧ s.sessions[i]? = some se ∧
      step {} s (.session i (.line ev)) = some s' ∧ P s se s' := by
  obtain ⟨s, hr, h⟩ := Option.bind_eq_some_iff.mp h
  obtain ⟨se, hse, h⟩ := Option.bind_eq_some_iff.mp h
  obtain ⟨s', hs, h⟩ := Option.map_eq_some_iff.mp h
  exact ⟨s, se, s', hr, hse, hs, of_decide_eq_true h⟩

/-- The announcer's own flow: the address is kept apart, since one client alone announced
it. -/
theorem attribution_scoped_one_site :
    ∃ s se s' pkt, run (step {}) {} (announcer 0 clientA (ascii "203.0.113.9")) = some s ∧
      s.sessions[0]? = some se ∧ step {} s (.session 0 (.line flow)) = some s' ∧
      s'.shared.packets = s.shared.packets ++ [pkt] ∧ pkt.srcEntity = clientA ∧
      NamedInLan s se flowMeta.srcIp pkt.srcEntity := by
  obtain ⟨s, se, s', hr, hse, hs, hm, hid, hsnap, hreg, hann, hp, hent⟩ := exists_line
    (announcer 0 clientA (ascii "203.0.113.9")) 0 flow
    (fun s se s' => se.readLine {} flow = .data flowMeta ∧ se.clientId = clientA ∧
      se.localRegSnap flowMeta.srcIp = some clientA ∧
      s.shared.registry.ipToClientId flowMeta.srcIp = some clientA ∧
      (∀ e ∈ s.shared.announcements, e.host = clientA) ∧
      s'.shared.packets = s.shared.packets ++ [se.packet none flowMeta] ∧
      (se.packet none flowMeta).srcEntity = clientA) (by decide +kernel)
  have hone : ∀ k, .holds k flowMeta.srcIp ∈ s.shared.announcements → k = se.clientId := by
    intro k hk
    rw [hid]
    exact hann _ hk
  have hfree := Scoped.separate_of_one_holder hone
  have hk : KeptApart s se flowMeta.srcIp := ⟨by rw [hsnap, hreg], hfree.2, hfree.1⟩
  exact ⟨s, se, s', _, hr, hse, hs, hp, hent,
    (attribution_scoped hr hse hm hs hp).1 (by decide +kernel) hk⟩

/-- Two sites: the address of a client at one is in use at the other, and the flow from it
there is attributed to the client at the first. -/
theorem foreign_client_is_named :
    ∃ s se s' pkt, run (step {}) {} (announcer 0 clientA (ascii "198.51.100.7") ++
        bystander 1 clientB (ascii "203.0.113.9")) = some s ∧
      s.sessions[1]? = some se ∧ se.clientId = clientB ∧
      step {} s (.session 1 (.line flow)) = some s' ∧
      s'.shared.packets = s.shared.packets ++ [pkt] ∧ pkt.srcEntity = clientA ∧
      ¬ NamedInLan s se flowMeta.srcIp pkt.srcEntity := by
  obtain ⟨s, se, s', hr, hse, hs, hid, hattr, hextA, hextB, hp, hent⟩ := exists_line
    (announcer 0 clientA (ascii "198.51.100.7") ++ bystander 1 clientB (ascii "203.0.113.9")) 1 flow
    (fun s se s' => se.clientId = clientB ∧ se.attributed flowMeta.srcIp = some clientA ∧
      s.shared.registry.clientToExternalIp clientA = some (ascii "198.51.100.7") ∧
      s.shared.registry.clientToExternalIp clientB = some (ascii "203.0.113.9") ∧
      s'.shared.packets = s.shared.packets ++ [se.packet none flowMeta] ∧
      (se.packet none flowMeta).srcEntity = clientA) (by decide +kernel)
  refine ⟨s, se, s', _, hr, hse, hid, hs, hp, hent, fun h => ?_⟩
  obtain ⟨_, e | ⟨ext, _, hB, hA⟩⟩ := h.registered clientA hattr
  · rw [hid] at e
    exact absurd e (by decide)
  · rw [hid, hextB, Option.some.injEq] at hB
    rw [hextA, ← hB] at hA
    exact absurd hA (by decide)

end TrafficMonitor.Sessions
