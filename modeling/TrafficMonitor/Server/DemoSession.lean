import TrafficMonitor.Server.Dashboard
import TrafficMonitor.Stats.Conservation

/-!
# Demo sessions

What a demo token lets its holder learn about the traffic statistics.

Proved here:

* `respond_eq`: the responses that do not depend on the statistics;
* `history_differs`, `summary_differs`: where they do, one packet makes a difference;
* `demo_learns_nothing_iff`: a request with a valid demo token is answered in the same way
  in all states of the statistics if and only if it does not ask for a client's history,
  and its token has not expired when the summary handler looks at it again;
* `demo_token_reads_history`: a demo token reads the traffic of a client.
-/

namespace TrafficMonitor.Dashboard

open Bytes Maps Sessions Stats Runs

/-! ## Requests for real traffic -/

def IsGet (req : Request) : Prop := verbOf req.method = some (some .get)

instance (req : Request) : Decidable (IsGet req) := inferInstanceAs (Decidable (_ = _))

/-- The request is for the history of a client. -/
def AsksHistory (req : Request) : Prop :=
  IsGet req ∧ req.path = ascii "/api/client/history" ∧
    isClientIdText (req.param (ascii "client_id")) = true

def AsksSummary (req : Request) : Prop := IsGet req ∧ req.path = ascii "/api/summary"

/-- The pre-routing handler finds the demo token of the request. -/
def DemoAtRouting (s : Server) (req : Request) : Prop :=
  (checkDemoToken s.routing (sessionFromRequest req)).1 = true

/-- The handler of the summary finds it again. -/
def DemoAtHandling (s : Server) (req : Request) : Prop :=
  (checkDemoToken s.handling (sessionFromRequest req)).1 = true

/-! ## Routes -/

theorem regexMatch_eq {pattern path : Bytes} (hdot : (46 : UInt8) ∉ pattern)
    (h : regexMatch pattern path = true) : path = pattern := by
  induction pattern generalizing path with
  | nil =>
    cases path with
    | nil => rfl
    | cons c path => simp [regexMatch] at h
  | cons p pattern ih =>
    cases path with
    | nil => simp [regexMatch] at h
    | cons c path =>
      simp only [List.mem_cons, not_or] at hdot
      simp only [regexMatch, List.length_cons, List.zip_cons_cons, List.all_cons,
        Bool.and_eq_true, Bool.or_eq_true, decide_eq_true_eq, Nat.add_right_cancel_iff] at h
      obtain ⟨hlen, hpc | ⟨hp, -⟩, hrest⟩ := h
      · have hmatch : regexMatch pattern path = true := by
          simpa [regexMatch, hlen] using hrest
        rw [hpc, ih hdot.2 hmatch]
      · exact absurd hp.1.symm hdot.1

/-- The routes whose handlers capture the statistics. -/
theorem routes_handler : ∀ r ∈ routes, r.handler = .plain ∨
    r = { Route.of .get "/api/summary" with handler := .summary, always := true } ∨
    r = { Route.of .get "/api/client/history" with handler := .history, always := true } ∨
    r = { Route.of .post "/api/admin/purge" with handler := .purge } := by
  decide

theorem findRoute_spec {s : Server} {verb : Verb} {path : Bytes} {r : Route}
    (h : findRoute s verb path = some r) :
    r ∈ routes ∧ r.verb = verb ∧ r.matcher.matches path = true := by
  have hfound := List.find?_some h
  simp only [Bool.and_eq_true, decide_eq_true_eq] at hfound
  exact ⟨List.mem_of_find?_eq_some h, hfound.1⟩

/-- Admin paths are blocked for demo tokens. -/
theorem preRouting_admin {s : Server} {req : Request} (hdemo : DemoAtRouting s req)
    (hexempt : isAuthExemptPath req.path = false) (hadmin : isAdminApiPath req.path = true) :
    (preRouting s req).1 = .handled := by
  unfold DemoAtRouting at hdemo
  simp [preRouting, hexempt, hdemo, hadmin]

/-! ## The same answer -/

private theorem handle_eq {s : Server} {req : Request} {r : Route} {res : Response}
    (hdemo : DemoAtRouting s req) (hhistory : ¬AsksHistory req)
    (hsummary : AsksSummary req → DemoAtHandling s req)
    (hres : preRouting s req = (.unhandled, res)) {verb : Verb}
    (hverb : verbOf req.method = some (some verb)) (hr : findRoute s verb req.path = some r)
    (st st' : TrafficStats) : s.handle st r req res = s.handle st' r req res := by
  obtain ⟨hmem, hv, hmatch⟩ := findRoute_spec hr
  rcases routes_handler r hmem with hplain | rfl | rfl | rfl
  · simp only [Server.handle, hplain]
  · have hpath : req.path = ascii "/api/summary" := regexMatch_eq (by decide) hmatch
    have hagain := hsummary ⟨by rw [IsGet, hverb, ← hv]; rfl, hpath⟩
    unfold DemoAtHandling at hagain
    simp only [Server.handle, summaryHandler, hagain, ↓reduceIte]
  · have hpath : req.path = ascii "/api/client/history" := regexMatch_eq (by decide) hmatch
    have hid : isClientIdText (req.param (ascii "client_id")) = false := by
      by_contra hne
      exact hhistory ⟨by rw [IsGet, hverb, ← hv]; rfl, hpath, by simpa using hne⟩
    simp only [Server.handle, historyHandler, hid, Bool.false_eq_true, ↓reduceIte]
  · have hpath : req.path = ascii "/api/admin/purge" := regexMatch_eq (by decide) hmatch
    have hblocked := preRouting_admin hdemo (by rw [hpath]; decide) (by rw [hpath]; decide)
    rw [hres] at hblocked
    cases hblocked

/-- **Same answer.** -/
theorem respond_eq {s : Server} {req : Request} (hdemo : DemoAtRouting s req)
    (hhistory : ¬AsksHistory req) (hsummary : AsksSummary req → DemoAtHandling s req)
    (st st' : TrafficStats) : respond s st req = respond s st' req := by
  unfold respond
  cases hpre : preRouting s req with
  | mk answer res =>
    cases answer with
    | handled => rfl
    | unhandled =>
      dsimp only
      unfold dispatch
      cases hverb : verbOf req.method with
      | none => rfl
      | some v =>
        cases v with
        | none => rfl
        | some verb =>
          dsimp only
          cases hr : findRoute s verb req.path with
          | none => rfl
          | some r => dsimp only; rw [handle_eq hdemo hhistory hsummary hpre hverb hr st st']

/-! ## States one packet apart -/

/-- Some run of the statistics ends in this state. -/
def Reachable (s : Server) (st : TrafficStats) : Prop :=
  ∃ calls t, run (Stats.step s.limits s.hash) {} calls = some t ∧ t.stats = st

theorem reachable_empty (s : Server) : Reachable s {} := ⟨[], {}, rfl, rfl⟩

private def packetOf (clientId : ClientId) : Packet :=
  ⟨clientId, ascii "eth0", ascii "10.0.0.5", ascii "9.9.9.9", ascii "LAN", ascii "DE",
    ascii "LAN", ascii "e", 60⟩

private theorem add_new (limits : Limits) (t d : Int) (p : Packet) :
    ∃ b ev, ({ dayIndex := d } : DayBucket).add limits t p {} = some (b, ev) ∧ b.dayIndex = d := by
  have hno : wouldOverflow 0 0 p.bytes = false := by simp [wouldOverflow]
  simp only [DayBucket.add, Maps.get_empty, evict_empty limits.flow_pos,
    evict_empty limits.entity_pos]
  simp [hno]

private theorem addPacket_new (limits : Limits) (t : Int) (p : Packet) :
    ∃ sh ev b, ({} : Shard).addPacket limits t p {} = some (sh, .accepted ev) ∧
      sh.dayBuckets = [b] ∧ b.dayIndex = dayIndex t ∧
      sh.clientHistory = AList.insert p.clientId (({} : ClientHistoryRing).add t p) ∅ := by
  obtain ⟨b, ev, hadd, hday⟩ := add_new limits t (dayIndex t) p
  have hroom : ¬(p.iface ∉ ([] : List Bytes) ∧ limits.maxIfacesPerClient ≤ 0) := fun h => by
    have := limits.ifaces_pos
    omega
  have hprune : prune limits.windowDays [b] = [b] := by
    rw [prune, List.length_singleton, Nat.sub_eq_zero_of_le limits.windowDays_pos, List.drop_zero]
  refine ⟨{
    dayBuckets := [b]
    clientIfaces := AList.insert p.clientId [p.iface] ∅
    clientHistory := AList.insert p.clientId (({} : ClientHistoryRing).add t p) ∅ }, ev, b, ?_,
    rfl, hday, rfl⟩
  simp only [Shard.addPacket, Maps.get_empty, List.length_nil, if_neg hroom, openBucket,
    List.getLast?_nil, hadd, Option.map_some, List.nil_append, hprune]
  rfl

/-- The statistics after the first packet of a client. -/
theorem reachable_packet (s : Server) (t : Int) (clientId : ClientId) : ∃ st b,
    Reachable s st ∧ (∀ i, (st.shards i).dayBuckets = if i = s.hash clientId then [b] else []) ∧
      b.dayIndex = dayIndex t ∧ (st.shards (s.hash clientId)).clientHistory =
        AList.insert clientId (({} : ClientHistoryRing).add t (packetOf clientId)) ∅ := by
  obtain ⟨sh, ev, b, hadd, hb, hday, hhist⟩ := addPacket_new s.limits t (packetOf clientId)
  have hstep : ∃ u, Stats.step s.limits s.hash {} (.addPacket t (packetOf clientId) {}) = some u ∧
      u.stats = ⟨Function.update (fun _ => {}) (s.hash clientId) sh⟩ := by
    have hadd' : (({} : Stats.State).stats.shards (s.hash (packetOf clientId).clientId)).addPacket
        s.limits t (packetOf clientId) {} = some (sh, .accepted ev) := hadd
    simp only [Stats.step, hadd']
    exact ⟨_, rfl, rfl⟩
  obtain ⟨u, hu, hstats⟩ := hstep
  refine ⟨u.stats, b, ⟨_, u, run_cons_eq_some.mpr ⟨u, hu, run_nil u⟩, rfl⟩, ?_, hday, ?_⟩
  · intro i
    by_cases hi : i = s.hash clientId
    · subst hi
      simp [hstats, hb]
    · simp [hstats, hi]
  · simp only [hstats, Function.update_self]
    exact hhist

/-! ## Different answers -/

theorem findRoute_eq (s : Server) (verb : Verb) (path : Bytes) : findRoute s verb path =
    (routes.filter fun r => r.verb = verb && r.matcher.matches path).find? fun r =>
      r.always || s.registered r := by
  simp [findRoute, List.find?_filter]

/-- A request with a demo token for a path that needs a session and no admin reaches the
handler of the path. -/
theorem respond_handled {s : Server} {req : Request} {r : Route} (st : TrafficStats)
    (hdemo : DemoAtRouting s req) (hget : IsGet req) (hexempt : isAuthExemptPath req.path = false)
    (hadmin : isAdminApiPath req.path = false) (hr : findRoute s .get req.path = some r) :
    respond s st req = errorHandler (s.handle st r req {}) := by
  have hpre : preRouting s req = (.unhandled, {}) := by
    unfold DemoAtRouting at hdemo
    simp [preRouting, hexempt, hdemo, hadmin]
  unfold IsGet at hget
  simp only [respond, hpre, dispatch, hget, hr]

private theorem windowStart_of {s : Server} {st : TrafficStats} {b : DayBucket}
    {clientId : ClientId}
    (hst : ∀ i, (st.shards i).dayBuckets = if i = s.hash clientId then [b] else []) :
    st.windowStart s.now = b.dayIndex * 86400 := by
  have hmin : st.minDay = some b.dayIndex := by
    refine List.min?_eq_some_iff.mpr ⟨?_, ?_⟩
    · exact List.mem_filterMap.mpr ⟨s.hash clientId, List.mem_finRange _, by simp [hst]⟩
    · intro d hd
      obtain ⟨i, -, hi⟩ := List.mem_filterMap.mp hd
      rw [hst] at hi
      split at hi
      · exact Int.le_of_eq (Option.some.inj hi)
      · cases hi
  rw [TrafficStats.windowStart, hmin]

/-- The summaries after a packet on day 0 and after one on day 1 tell these days. -/
theorem summary_differs {s : Server} {req : Request} (hdemo : DemoAtRouting s req)
    (hasks : AsksSummary req) (hexpired : ¬DemoAtHandling s req) :
    ∃ st st', Reachable s st ∧ Reachable s st' ∧ respond s st req ≠ respond s st' req := by
  obtain ⟨hget, hpath⟩ := hasks
  obtain ⟨st, b, hst, hb, hday, -⟩ := reachable_packet s 0 []
  obtain ⟨st', b', hst', hb', hday', -⟩ := reachable_packet s 86400 []
  refine ⟨st, st', hst, hst', fun heq => ?_⟩
  have hroute : findRoute s .get req.path =
      some { Route.of .get "/api/summary" with handler := .summary, always := true } := by
    have hfilter : (routes.filter fun r => r.verb = .get &&
        r.matcher.matches (ascii "/api/summary")) =
        [{ Route.of .get "/api/summary" with handler := .summary, always := true }] := by
      decide +kernel
    rw [findRoute_eq, hpath, hfilter]
    rfl
  have hbody : ∀ st, (respond s st req).body = buildSummaryJson s st := by
    intro st
    rw [respond_handled st hdemo hget (by rw [hpath]; decide) (by rw [hpath]; decide) hroute]
    unfold DemoAtHandling at hexpired
    simp [Server.handle, summaryHandler, hexpired, errorHandler, Response.setContent,
      Response.setHeader]
  have hjson : buildSummaryJson s st = buildSummaryJson s st' := by
    rw [← hbody, ← hbody, heq]
  unfold buildSummaryJson at hjson
  simp only [List.append_assoc, List.append_cancel_left_eq] at hjson
  rw [windowStart_of hb, windowStart_of hb', hday, hday'] at hjson
  have hzero : decimalInt (dayIndex 0 * 86400) = [48] := by decide +kernel
  have hone : decimalInt (dayIndex 86400 * 86400) = [56, 54, 52, 48, 48] := by decide +kernel
  rw [hzero, hone] at hjson
  have hhead : (48 : UInt8) = 56 := (List.cons.inj hjson).1
  exact absurd hhead (by decide)

private theorem epoch_addToRing (slots epoch : Nat) (isIn : Bool) (length : Nat)
    (ring : Map Nat HistorySlot) :
    (get (addToRing slots epoch isIn length ring) (epoch % slots) {}).epoch = epoch := by
  unfold addToRing
  rw [Maps.get_insert]
  by_cases h : (Maps.get ring (epoch % slots) {}).epoch = epoch
  · cases isIn <;> simp [HistorySlot.add, h]
  · cases isIn <;> simp [HistorySlot.add, h]

/-- A second of the minute in which a history of `now` ends. -/
private def lastMinute (now : Int) : Nat := now.toNat / 60 % 2 ^ 64

private theorem minuteBuckets_ne_nil (now : Int) {n : Nat} (hn : 0 < n) (p : Packet) :
    minuteBuckets now n (({} : ClientHistoryRing).add ((lastMinute now * 60 : Nat) : Int) p) ≠ [] := by
  have hepoch : (((lastMinute now * 60 : Nat) : Int).toNat) / 60 = lastMinute now := by
    rw [Int.toNat_natCast, Nat.mul_div_cancel _ (by decide)]
  have hlast : (now.toNat / 60 + 2 ^ 64 - (n - 1 - (n - 1))) % 2 ^ 64 = lastMinute now := by
    rw [Nat.sub_self, Nat.sub_zero, Nat.add_mod_right, lastMinute]
  intro hnil
  have hnone := List.filterMap_eq_nil_iff.mp hnil (n - 1) (List.mem_range.mpr (by omega))
  simp only [hlast, ClientHistoryRing.add, hepoch, epoch_addToRing, ne_eq, not_true_eq_false,
    ↓reduceIte, reduceCtorEq] at hnone

private theorem intercalate_cons (sep x : Bytes) (xs : List Bytes) :
    ∃ t, sep.intercalate (x :: xs) = x ++ t := by
  cases xs with
  | nil => exact ⟨[], by simp [List.intercalate]⟩
  | cons y ys => exact ⟨sep ++ sep.intercalate (y :: ys), by simp [List.intercalate]⟩

/-- The histories of a client without and with a first packet. -/
private theorem historyJson_ne (limits : Limits) (now minutes : Int) (clientId : ClientId)
    {sh : Shard} (hsh : sh.clientHistory = AList.insert clientId (({} : ClientHistoryRing).add
      ((lastMinute now * 60 : Nat) : Int) (packetOf clientId)) ∅) :
    historyJson (({} : Shard).snapshotHistory limits now clientId minutes) ≠
      historyJson (sh.snapshotHistory limits now clientId minutes) := by
  have hnone : ({} : Shard).snapshotHistory limits now clientId minutes =
      ⟨clientId, 60, limits.windowDays, []⟩ := rfl
  intro hjson
  rw [hnone, Shard.snapshotHistory, hsh, AList.lookup_insert] at hjson
  dsimp only at hjson
  split at hjson
  · rename_i hpos
    have hn : 0 < min minutes.toNat kMinuteSlots := by
      have : 0 < kMinuteSlots := by decide
      omega
    obtain ⟨b, bs, hbs⟩ := List.exists_cons_of_ne_nil
      (minuteBuckets_ne_nil now hn (packetOf clientId))
    rw [hbs] at hjson
    simp only [historyJson, List.append_assoc, List.append_cancel_left_eq] at hjson
    obtain ⟨t, ht⟩ := intercalate_cons (ascii ",") (HistoryBucket.json b) (bs.map HistoryBucket.json)
    rw [List.map_cons, ht] at hjson
    have hhead : (93 : UInt8) = 123 := (List.cons.inj hjson).1
    exact absurd hhead (by decide)
  · simp only [historyJson, List.append_assoc, List.append_cancel_left_eq] at hjson
    have hminute : decimal 60 = [54, 48] := by decide +kernel
    have hhour : decimal 3600 = [51, 54, 48, 48] := by decide +kernel
    rw [hminute, hhour] at hjson
    have hhead : (54 : UInt8) = 51 := (List.cons.inj hjson).1
    exact absurd hhead (by decide)

theorem history_differs {s : Server} {req : Request} (hdemo : DemoAtRouting s req)
    (hasks : AsksHistory req) :
    ∃ st st', Reachable s st ∧ Reachable s st' ∧ respond s st req ≠ respond s st' req := by
  obtain ⟨hget, hpath, hid⟩ := hasks
  obtain ⟨st, b, hst, -, -, hhist⟩ := reachable_packet s ((lastMinute s.now * 60 : Nat) : Int)
    (req.param (ascii "client_id"))
  refine ⟨{}, st, reachable_empty s, hst, fun heq => ?_⟩
  have hroute : findRoute s .get req.path =
      some { Route.of .get "/api/client/history" with handler := .history, always := true } := by
    have hfilter : (routes.filter fun r => r.verb = .get &&
        r.matcher.matches (ascii "/api/client/history")) =
        [{ Route.of .get "/api/client/history" with handler := .history, always := true }] := by
      decide +kernel
    rw [findRoute_eq, hpath, hfilter]
    rfl
  have hbody : ∀ st, (respond s st req).body = historyJson
      ((st.shards (s.hash (req.param (ascii "client_id")))).snapshotHistory s.limits s.now
        (req.param (ascii "client_id")) (minutesOf (req.param (ascii "minutes")))) := by
    intro st
    rw [respond_handled st hdemo hget (by rw [hpath]; decide) (by rw [hpath]; decide) hroute]
    simp [Server.handle, historyHandler, hid, errorHandler, Response.setContent,
      Response.setHeader]
  refine historyJson_ne s.limits s.now (minutesOf (req.param (ascii "minutes"))) _ hhist ?_
  rw [← hbody, ← heq, hbody]

/-- **Demo sessions.** For a request with a demo token that the pre-routing handler accepts,
the answers are the same in all states that the statistics can be in if and only if it
does not ask for a client's history and, if it asks for the summary, the handler accepts
the token too. -/
theorem demo_learns_nothing_iff (s : Server) (req : Request) (hdemo : DemoAtRouting s req) :
    (∀ st st', Reachable s st → Reachable s st' → respond s st req = respond s st' req) ↔
      ¬AsksHistory req ∧ (AsksSummary req → DemoAtHandling s req) := by
  constructor
  · intro hsame
    constructor
    · intro hasks
      obtain ⟨st, st', hst, hst', hne⟩ := history_differs hdemo hasks
      exact hne (hsame st st' hst hst')
    · intro hasks
      by_contra hexpired
      obtain ⟨st, st', hst, hst', hne⟩ := summary_differs hdemo hasks hexpired
      exact hne (hsame st st' hst hst')
  · rintro ⟨hhistory, hsummary⟩ st st' - -
    exact respond_eq hdemo hhistory hsummary st st'

/-! A demo token that expires at second 1000, the summary and a client's history. -/

private def demoServer (handling : Int) : Server where
  limits := Limits.of 7 9 9 9
  hash := fun _ => 3
  registered := fun _ => true
  rateLimiter := fun _ => true
  sessionRateLimiter := fun _ => true
  isValidSession := fun _ => false
  isAdminSession := fun _ => false
  demoEnabled := true
  routing := ⟨AList.insert (ascii "demo_17") 1000 ∅, 999⟩
  handling := ⟨AList.insert (ascii "demo_17") 1000 ∅, handling⟩
  now := handling
  plain := fun _ _ res => res
  purge := fun _ _ res => res
  buildDemoSummaryJson := ascii "demo"
  sections := fun _ => []

private def summaryRequest : Request where
  method := ascii "GET"
  path := ascii "/api/summary"
  authorization := ascii "Bearer demo_17"

private def someClient : ClientId := List.replicate 64 97

private def historyRequest : Request where
  method := ascii "GET"
  path := ascii "/api/client/history"
  cookie := ascii "ntm_session=demo_17"
  params := [(ascii "client_id", someClient), (ascii "minutes", ascii "1")]

theorem demo_learns_nothing_summary :
    DemoAtRouting (demoServer 999) summaryRequest ∧
      ∀ st st', Reachable (demoServer 999) st → Reachable (demoServer 999) st' →
        respond (demoServer 999) st summaryRequest = respond (demoServer 999) st' summaryRequest := by
  have hrouting : DemoAtRouting (demoServer 999) summaryRequest := by
    unfold DemoAtRouting
    decide +kernel
  refine ⟨hrouting, (demo_learns_nothing_iff _ _ hrouting).mpr ⟨?_, fun _ => ?_⟩⟩
  · unfold AsksHistory
    decide +kernel
  · unfold DemoAtHandling
    decide +kernel

/-- With a valid token the history tells of a packet of 60 bytes, and with one that expires
between the two checks the summary tells when the traffic began. -/
theorem demo_token_reads_history :
    DemoAtRouting (demoServer 999) historyRequest ∧ DemoAtHandling (demoServer 999) historyRequest ∧
      DemoAtRouting (demoServer 1000) summaryRequest ∧
      ∃ t, run (Stats.step (Limits.of 7 9 9 9) fun _ => 3) {}
          [.addPacket 990 (packetOf someClient) {}] = some t ∧
        hasSub (ascii "\"out_bytes\":60") (respond (demoServer 999) t.stats historyRequest).body ∧
        respond (demoServer 999) {} historyRequest ≠
          respond (demoServer 999) t.stats historyRequest ∧
        respond (demoServer 1000) {} summaryRequest ≠
          respond (demoServer 1000) t.stats summaryRequest := by
  refine ⟨by unfold DemoAtRouting; decide +kernel, by unfold DemoAtHandling; decide +kernel,
    by unfold DemoAtRouting; decide +kernel, ?_⟩
  have h : (run (Stats.step (Limits.of 7 9 9 9) fun _ => 3) {}
      [.addPacket 990 (packetOf someClient) {}]).map (fun t =>
        decide (hasSub (ascii "\"out_bytes\":60")
            (respond (demoServer 999) t.stats historyRequest).body ∧
          respond (demoServer 999) {} historyRequest ≠
            respond (demoServer 999) t.stats historyRequest ∧
          respond (demoServer 1000) {} summaryRequest ≠
            respond (demoServer 1000) t.stats summaryRequest)) = some true := by
    decide +kernel
  obtain ⟨t, ht, hdiff⟩ := Option.map_eq_some_iff.mp h
  exact ⟨t, ht, of_decide_eq_true hdiff⟩

end TrafficMonitor.Dashboard
