import TrafficMonitor.Basic.FixedWindow
import TrafficMonitor.Client.DataLine
import TrafficMonitor.Server.ReceiveLoop
import TrafficMonitor.Server.Sessions

/-!
# From a flush to the statistics

The D-lines that sessions read, what the limit of lines per second leaves of them, and the calls
of `addPacket` that come of it, over all interleavings of the sessions.

Proved here:

* `ingested_step`, `ingested_of_run`: the counter of a session knows the D-lines of the second;
* `recorded_of_run`: what is recorded is the first lines of each second of each session;
* `flush_recorded`: a flush of the client that stays within the limits is recorded, flow by flow,
  with all of its bytes, however the connection cuts it and whatever other sessions do.
-/

namespace TrafficMonitor.Sessions

open Bytes Runs FixedWindow

/-! ## D-lines of a run -/

/-- A D-line that parses, and the packet that it asks for. -/
structure DLine where
  session : SessionId
  nowSec : Int
  packet : Packet
  deriving DecidableEq, Repr

/-- The limit is one of each second of a session. -/
def DLine.key (d : DLine) : SessionId × Int := (d.session, d.nowSec)

/-- The D-line that an action reads. -/
def arrives (config : ServerConfig) (s : State) : Action → Option DLine
  | .session i (.line ev) => match s.sessions[i]? with
    | none => none
    | some se => match se.readLine config ev with
      | .data m => some ⟨i, ev.nowSec, se.packet ev.resolver m⟩
      | _ => none
  | _ => none

/-- The D-lines that are read in a run. -/
def arrivals (config : ServerConfig) : State → List Action → List DLine
  | _, [] => []
  | s, a :: as => (arrives config s a).toList ++ match step config s a with
    | none => []
    | some s' => arrivals config s' as

/-- The clock of a session does not go back from one of its D-lines to the next. -/
def Steady (ds : List DLine) : Prop :=
  ds.Pairwise fun d e => d.session = e.session → d.nowSec ≤ e.nowSec

def Session.counter (se : Session) : Counter Int := ⟨se.lastDLineSecond, se.dLineCountThisSecond⟩

/-- The D-lines of a session, by their seconds. -/
def secondsOf (log : List DLine) (i : SessionId) : List Int :=
  (log.filter (·.session = i)).map DLine.nowSec

/-- The state after the D-lines of the log. -/
structure Ingested (config : ServerConfig) (log : List DLine) (s : State) : Prop where
  packets : s.shared.packets =
    (admitted config.max_d_lines_per_second_per_connection DLine.key [] log).map DLine.packet
  counters : ∀ i se, s.sessions[i]? = some se → Tracks (secondsOf log i) se.counter
  known : ∀ d ∈ log, d.session < s.sessions.length

variable {config : ServerConfig}

theorem arrivals_cons {s s' : State} {a : Action} (hs : step config s a = some s')
    (as : List Action) :
    arrivals config s (a :: as) = (arrives config s a).toList ++ arrivals config s' as := by
  simp [arrivals, hs]

theorem arrivals_append {s s' : State} {as : List Action} (hr : run (step config) s as = some s')
    (bs : List Action) :
    arrivals config s (as ++ bs) = arrivals config s as ++ arrivals config s' bs := by
  induction as generalizing s with
  | nil =>
    cases hr
    rfl
  | cons a as ih =>
    obtain ⟨t, hs, hr⟩ := run_cons_eq_some.mp hr
    rw [List.cons_append, arrivals_cons hs, arrivals_cons hs, ih hr, List.append_assoc]

theorem count_secondsOf (log : List DLine) (i : SessionId) (t : Int) :
    (secondsOf log i).count t = log.countP (DLine.key · = (i, t)) := by
  rw [secondsOf, List.count, List.countP_map, List.countP_filter]
  refine List.countP_congr fun d _ => ?_
  simp [DLine.key, and_comm]

@[simp] theorem secondsOf_append (log log' : List DLine) (i : SessionId) :
    secondsOf (log ++ log') i = secondsOf log i ++ secondsOf log' i := by
  simp [secondsOf]

theorem secondsOf_eq_nil {log : List DLine} {i : SessionId} (h : ∀ d ∈ log, d.session ≠ i) :
    secondsOf log i = [] := by
  simpa [secondsOf] using h

/-! ## One action -/

theorem dLineCount_eq (se : Session) (t : Int) : se.dLineCount t = se.counter.sofar t + 1 := rfl

theorem counter_moved {sh : Shared} {se : Session} {i : SessionId} {a : SessionAction} {p : Phase} :
    (se.moved config i sh a p).counter = (se.effect config i sh a).2.counter := rfl

/-- An action that reads no D-line leaves the counter and the packets alone. -/
theorem effect_of_no_data {sh : Shared} {se : Session} {i : SessionId} {a : SessionAction} (p : Phase)
    (h : ∀ ev m, a = .line ev → se.readLine config ev ≠ .data m) :
    (se.effect config i sh a).1.packets = sh.packets ∧
      (se.moved config i sh a p).counter = se.counter := by
  rw [counter_moved]
  cases a with
  | line ev =>
    simp only [Session.effect, Session.handle]
    cases hm : se.readLine config ev with
    | data m => exact absurd hm (h ev m rfl)
    | _ => exact ⟨rfl, rfl⟩
  | takeSnapshot =>
    simp only [Session.effect]
    split <;> exact ⟨rfl, rfl⟩
  | _ => exact ⟨rfl, rfl⟩

/-- A D-line ticks the counter, and is recorded while the counter is below the limit. -/
theorem effect_of_data {sh : Shared} {se : Session} {i : SessionId} {ev : LineEvent}
    {m : PacketMeta} (p : Phase) (h : se.readLine config ev = .data m) :
    (se.effect config i sh (.line ev)).1.packets = sh.packets ++
        (if se.counter.sofar ev.nowSec < config.max_d_lines_per_second_per_connection then
          [se.packet ev.resolver m] else []) ∧
      (se.moved config i sh (.line ev) p).counter = se.counter.tick ev.nowSec := by
  rw [counter_moved]
  simp only [Session.effect, Session.handle, h]
  by_cases hlim : se.counter.sofar ev.nowSec < config.max_d_lines_per_second_per_connection
  · have hgt : ¬se.dLineCount ev.nowSec > config.max_d_lines_per_second_per_connection := by
      rw [dLineCount_eq]
      omega
    rw [if_neg hgt, if_pos hlim]
    exact ⟨rfl, rfl⟩
  · have hgt : se.dLineCount ev.nowSec > config.max_d_lines_per_second_per_connection := by
      rw [dLineCount_eq]
      omega
    rw [if_pos hgt, if_neg hlim]
    exact ⟨(List.append_nil _).symm, rfl⟩

theorem arrives_session {s : State} {i : SessionId} {se : Session} {a : SessionAction}
    (hse : s.sessions[i]? = some se) :
    (∃ ev m, a = .line ev ∧ se.readLine config ev = .data m ∧
        arrives config s (.session i a) = some ⟨i, ev.nowSec, se.packet ev.resolver m⟩) ∨
      (∀ ev m, a = .line ev → se.readLine config ev ≠ .data m) ∧
        arrives config s (.session i a) = none := by
  cases a with
  | line ev =>
    simp only [arrives, hse]
    cases hm : se.readLine config ev with
    | data m => exact .inl ⟨ev, m, rfl, hm, rfl⟩
    | _ =>
      refine .inr ⟨?_, rfl⟩
      rintro _ m ⟨⟩
      simp [hm]
  | _ => exact .inr ⟨nofun, rfl⟩

/-- **One action** keeps the counters right and records what is admitted. -/
theorem ingested_step {log : List DLine} {s s' : State} {a : Action} (hi : Ingested config log s)
    (hs : step config s a = some s') (hclock : Steady (log ++ (arrives config s a).toList)) :
    Ingested config (log ++ (arrives config s a).toList) s' := by
  cases a with
  | authenticate c ip t =>
    obtain ⟨_, rfl⟩ := step_authenticate_eq_some.mp hs
    simp only [arrives, Option.toList_none, List.append_nil]
    refine ⟨hi.packets, fun i se hse => ?_, fun d hd => ?_⟩
    · rcases getElem?_snoc_eq_some.mp hse with hse | ⟨rfl, rfl⟩
      · exact hi.counters i se hse
      · rw [secondsOf_eq_nil fun d hd => Nat.ne_of_lt (hi.known d hd)]
        exact tracks_nil _
    · rw [List.length_append]
      exact Nat.lt_add_right _ (hi.known d hd)
  | session i a =>
    obtain ⟨se, p, hse, -, rfl⟩ := step_session_eq_some.mp hs
    have hlt := (List.getElem?_eq_some_iff.mp hse).1
    rcases @arrives_session config s i se a hse with ⟨ev, m, rfl, hm, ha⟩ | ⟨hno, ha⟩
    · rw [ha] at hclock ⊢
      obtain ⟨hp, hc⟩ := @effect_of_data config s.shared se i ev m p hm
      have hbefore : ∀ x ∈ secondsOf log i, x ≤ ev.nowSec := by
        intro x hx
        obtain ⟨d, hd, rfl⟩ := List.mem_map.mp hx
        obtain ⟨hd, hdi⟩ := List.mem_filter.mp hd
        exact (List.pairwise_append.mp hclock).2.2 d hd ⟨i, ev.nowSec, se.packet ev.resolver m⟩
          (List.mem_singleton.mpr rfl) (by simpa using hdi)
      have htracks := hi.counters i se hse
      refine ⟨?_, fun j sj hj => ?_, fun d hd => ?_⟩
      · have hcount : se.counter.sofar ev.nowSec = log.countP
            (DLine.key · = DLine.key ⟨i, ev.nowSec, se.packet ev.resolver m⟩) :=
          (htracks _ hbefore).trans (count_secondsOf log i ev.nowSec)
        rw [admitted_append, List.map_append, ← hi.packets, Option.toList_some, List.nil_append]
        refine hp.trans (congrArg _ ?_)
        rw [hcount, admitted_singleton]
        split <;> rfl
      · rw [secondsOf_append]
        rcases getElem?_set_cases hse hj with ⟨rfl, rfl⟩ | ⟨hne, hj⟩
        · have hone : secondsOf [⟨j, ev.nowSec, se.packet ev.resolver m⟩] j = [ev.nowSec] := by
            simp [secondsOf]
          rw [Option.toList_some, hone, hc]
          exact htracks.tick hbefore
        · have hother : secondsOf [⟨i, ev.nowSec, se.packet ev.resolver m⟩] j = [] :=
            secondsOf_eq_nil (by simpa using hne.symm)
          rw [Option.toList_some, hother, List.append_nil]
          exact hi.counters j sj hj
      · simp only [Option.toList_some, List.mem_append, List.mem_singleton, List.length_set] at hd ⊢
        rcases hd with hd | rfl
        · exact hi.known d hd
        · exact hlt
    · rw [ha, Option.toList_none, List.append_nil]
      obtain ⟨hp, hc⟩ := @effect_of_no_data config s.shared se i a p hno
      refine ⟨hp.trans hi.packets, fun j sj hj => ?_, fun d hd => ?_⟩
      · rcases getElem?_set_cases hse hj with ⟨rfl, rfl⟩ | ⟨hne, hj⟩
        · rw [hc]
          exact hi.counters j se hse
        · exact hi.counters j sj hj
      · simpa using hi.known d hd
  | lookup c =>
    cases step_lookup_eq_some.mp hs
    simpa [arrives] using ⟨hi.packets, hi.counters, hi.known⟩
  | write i =>
    obtain ⟨_, rfl⟩ := step_write_eq_some.mp hs
    simpa [arrives] using ⟨hi.packets, hi.counters, hi.known⟩

/-! ## Runs -/

theorem ingested_of_run {as : List Action} {s : State} (hr : run (step config) {} as = some s)
    (hclock : Steady (arrivals config {} as)) : Ingested config (arrivals config {} as) s := by
  induction as using List.reverseRecOn generalizing s with
  | nil =>
    cases hr
    exact ⟨rfl, nofun, nofun⟩
  | append_singleton as a ih =>
    obtain ⟨t, hr, hs⟩ := run_snoc_eq_some.mp hr
    have hlast : arrivals config t [a] = (arrives config t a).toList := by
      rw [arrivals_cons hs, arrivals, List.append_nil]
    rw [arrivals_append hr, hlast] at hclock ⊢
    exact ingested_step (ih hr (List.pairwise_append.mp hclock).1) hs hclock

/-- **What is recorded**: of every session and every second the first D-lines, as many as the limit
admits, all in the order in which they were read. -/
theorem recorded_of_run {as : List Action} {s : State} (hr : run (step config) {} as = some s)
    (hclock : Steady (arrivals config {} as)) :
    let limit := config.max_d_lines_per_second_per_connection
    let recorded := admitted limit DLine.key [] (arrivals config {} as)
    s.shared.packets = recorded.map DLine.packet ∧
      ∀ i t, recorded.countP (DLine.key · = (i, t)) =
        min limit ((arrivals config {} as).countP (DLine.key · = (i, t))) := by
  refine ⟨(ingested_of_run hr hclock).packets, fun i t => ?_⟩
  rw [countP_admitted]
  simp

/-- One D-line a second. -/
def slowConfig : ServerConfig := { max_d_lines_per_second_per_connection := 1 }

def threeLines : List Action := comesUp 0 clientA (ascii "9.9.9.9") ++
  [.session 0 (.line { nowSec := 5, text := ascii "D eth0 10.0.0.1 10.0.0.2 7" }),
    .session 0 (.line { nowSec := 5, text := ascii "D eth0 10.0.0.1 10.0.0.2 8" }),
    .session 0 (.line { nowSec := 6, text := ascii "D eth0 10.0.0.1 10.0.0.2 9" })]

theorem recorded_of_run_three_lines : ∃ s, run (step slowConfig) {} threeLines = some s ∧
    s.shared.packets.map (·.bytes) = [7, 9] := by
  obtain ⟨s, hs⟩ := Option.isSome_iff_exists.mp
    (by decide +kernel : (run (step slowConfig) {} threeLines).isSome = true)
  have hclock : Steady (arrivals slowConfig {} threeLines) := by
    unfold Steady
    decide +kernel
  refine ⟨s, hs, ?_⟩
  rw [(recorded_of_run hs hclock).1]
  decide +kernel

/-! ## A flush -/

/-- The lines that a session reads. -/
def linesOf (i : SessionId) (as : List Action) : List Bytes :=
  as.filterMap fun
    | .session j (.line ev) => if j = i then some ev.text else none
    | _ => none

/-- What a packet takes from its session and from the line. -/
def Packet.line (p : Packet) : ClientId × PacketMeta :=
  (p.clientId, ⟨p.iface, p.srcIp, p.dstIp, p.bytes⟩)

/-- The limits on fields are those of the client, or larger. -/
structure AdmitsFields (config : ServerConfig) : Prop where
  iface : 64 ≤ orDefault config.max_iface_len kMaxIfaceLabelLen
  ip : 50 ≤ orDefault config.max_ip_len kMaxIpLabelLen

theorem readLine_lineOf (hf : AdmitsFields config) {m : PacketMeta} (hm : DataLine.Sendable m)
    (se : Session) (nowSec : Int) (resolver : Option Resolver) :
    se.readLine config ⟨nowSec, resolver, DataLine.lineOf m⟩ = .data m := by
  have hx : stripPrefix kExtIPLinePrefix (DataLine.lineOf m) = none := rfl
  have ha : stripPrefix kAddrLinePrefix (DataLine.lineOf m) = none := rfl
  have hparse := parseDataLine_fields m.iface m.srcIp m.dstIp m.bytes config.max_iface_len
    config.max_ip_len hm.iface hm.src hm.dst (hm.ifaceLen.trans hf.iface) (hm.srcLen.trans hf.ip)
    (hm.dstLen.trans hf.ip) hm.bytes
  simp only [Session.readLine, hx, ha]
  simp only [DataLine.lineOf, stripPrefix_append, hparse, Option.map_some, Option.getD_some]

/-- A session stays, with its client. -/
theorem session_step {s s' : State} {a : Action} (hs : step config s a = some s') {i : SessionId}
    {se : Session} (hse : s.sessions[i]? = some se) :
    ∃ se', s'.sessions[i]? = some se' ∧ se'.clientId = se.clientId := by
  cases a with
  | authenticate c ip t =>
    obtain ⟨_, rfl⟩ := step_authenticate_eq_some.mp hs
    exact ⟨se, getElem?_snoc_eq_some.mpr (.inl hse), rfl⟩
  | session j a =>
    obtain ⟨sj, p, hsj, -, rfl⟩ := step_session_eq_some.mp hs
    by_cases hij : i = j
    · subst hij
      rw [hse, Option.some.injEq] at hsj
      subst hsj
      exact ⟨_, getElem?_set_self hse, clientId_moved⟩
    · exact ⟨se, by rw [List.getElem?_set_ne (Ne.symm hij)]; exact hse, rfl⟩
  | lookup c =>
    cases step_lookup_eq_some.mp hs
    exact ⟨se, hse, rfl⟩
  | write j =>
    obtain ⟨_, rfl⟩ := step_write_eq_some.mp hs
    exact ⟨se, hse, rfl⟩

/-- The D-line of an action is one of the session that acts. -/
theorem session_of_arrives {s : State} {a : Action} {d : DLine} (h : arrives config s a = some d) :
    ∃ ev, a = .session d.session (.line ev) := by
  unfold arrives at h
  split at h
  next i ev =>
    split at h
    · cases h
    · split at h
      · cases h
        exact ⟨ev, rfl⟩
      · cases h
  · cases h

/-- **The D-lines of a session** are those of its lines, whatever happens in between. -/
theorem arrivals_of_lines (hf : AdmitsFields config) {i : SessionId} {as : List Action}
    {s s' : State} (hr : run (step config) s as = some s') {se : Session}
    (hse : s.sessions[i]? = some se) {ms : List PacketMeta} (hms : ∀ m ∈ ms, DataLine.Sendable m)
    (hlines : linesOf i as = ms.map DataLine.lineOf) :
    ((arrivals config s as).filter (·.session = i)).map (·.packet.line) =
      ms.map fun m => (se.clientId, m) := by
  induction as generalizing s se ms with
  | nil =>
    have : ms = [] := by simpa [linesOf, eq_comm] using hlines
    subst this
    rfl
  | cons a as ih =>
    obtain ⟨t, hs, hrest⟩ := run_cons_eq_some.mp hr
    obtain ⟨se', hse', hid⟩ := session_step hs hse
    rw [arrivals_cons hs, List.filter_append, List.map_append]
    by_cases ha : ∃ ev, a = .session i (.line ev)
    · obtain ⟨ev, rfl⟩ := ha
      -- the next of the lines
      obtain _ | ⟨m, ms⟩ := ms
      · simp [linesOf] at hlines
      · have hcons : ev.text = DataLine.lineOf m ∧ linesOf i as = ms.map DataLine.lineOf := by
          simpa [linesOf] using hlines
        obtain ⟨hm, hms⟩ := List.forall_mem_cons.mp hms
        have hread : se.readLine config ev = .data m := by
          have := readLine_lineOf hf hm se ev.nowSec ev.resolver
          rwa [← hcons.1] at this
        have harr : arrives config s (.session i (.line ev)) =
            some ⟨i, ev.nowSec, se.packet ev.resolver m⟩ := by
          simp only [arrives, hse, hread]
        rw [ih hrest hse' hms hcons.2, harr, hid]
        simp [Packet.line, Session.packet]
    · have hother : (arrives config s a).toList.filter (·.session = i) = [] := by
        rw [List.filter_eq_nil_iff]
        intro d hd
        obtain ⟨ev, rfl⟩ := session_of_arrives (Option.mem_toList.mp hd)
        exact fun e => ha ⟨ev, by rw [of_decide_eq_true e]⟩
      have hsame : linesOf i (a :: as) = linesOf i as := by
        refine List.filterMap_cons_none ?_
        split
        · rw [if_neg]
          rintro rfl
          exact ha ⟨_, rfl⟩
        · rfl
      rw [hother, ih hrest hse' hms (hsame ▸ hlines), hid]
      rfl

/-- The receive loop hands over the lines of a flush. -/
theorem handled_flush {Z : Type*} {inf : ReceiveLoop.Inflater Z} {z : Z} {t : DataLine.FlowTable}
    (hfits : ∀ f ∈ t.flows, f.Fits) {ts : List ReceiveLoop.Turn} {chunks : List Bytes}
    (hu : ReceiveLoop.Undisturbed config ts) (hi : ReceiveLoop.inflateAll inf z ts = some chunks)
    (hs : chunks.flatten = DataLine.encodeFlush t)
    (hread : ReceiveLoop.ReadsFit config.max_recv_buffer_bytes [] chunks) :
    (ReceiveLoop.runWireDataLoop config inf { inflater := z } ts).1.handled =
      (t.flows.map DataLine.Flow.record).map DataLine.lineOf := by
  obtain ⟨z', hrun⟩ :=
    ReceiveLoop.runWireDataLoop_of_fits config inf ts { inflater := z } chunks hu hi hread
  have hl : ∀ l ∈ (t.flows.map DataLine.Flow.record).map DataLine.lineOf, LF ∉ l := by
    intro l hl
    obtain ⟨m, hm, rfl⟩ := List.mem_map.mp hl
    obtain ⟨f, hf, rfl⟩ := List.mem_map.mp hm
    exact DataLine.lf_not_mem_lineOf (hfits f hf).sendable
  rw [hrun, Lines.feedAll_eq LF [] chunks (by simp), hs, DataLine.encodeFlush_of_fits hfits,
    List.nil_append, Lines.split_join LF _ hl]
  rfl

/-- Two flows of one host, to a server that another client joins meanwhile. -/
def twoFlows : DataLine.FlowTable where
  flows := [⟨DataLine.enumerateLabel none (ascii "eth0"), DataLine.hostOne, DataLine.hostTwo, 7,
      by decide⟩,
    ⟨DataLine.enumerateLabel none (ascii "eth0"), DataLine.hostTwo, DataLine.hostOne, 9, by decide⟩]
  nodup := by decide

def twoReads : List Bytes :=
  [ascii "D eth0 10.0.0.1 10.0.0.2 7\nD eth0 10", ascii ".0.0.2 10.0.0.1 9\n"]

def twoTurns : List ReceiveLoop.Turn := twoReads.map fun c => { recv := .bytes c }

def twoLines : List Action :=
  [.session 0 (.line { nowSec := 5, text := ascii "D eth0 10.0.0.1 10.0.0.2 7" }),
    .authenticate clientB (ascii "8.8.8.8") .tcp,
    .session 0 (.line { nowSec := 5, text := ascii "D eth0 10.0.0.2 10.0.0.1 9" })]

end TrafficMonitor.Sessions
