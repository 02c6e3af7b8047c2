import TrafficMonitor.Basic.Tally
import TrafficMonitor.Server.HiddenEntities
import TrafficMonitor.Server.IpRanges
import TrafficMonitor.Stats.TrafficStats

/-!
# The classification of the summary

`buildSummaryJson` goes through the entity flows of a snapshot, interface by interface, passes over
the hidden ones and counts each flow as overhead, local or internet, under the labels that are
displayed. Flows whose labels are the same share a row.

Proved here:

* `classify_eq`: the loops go through the visible flows, one after the other;
* `figures_of_flows`: each figure is the tally of the flows of its classes;
* `summary_partition`: without wrap, the figures add up, and hidden interfaces leave no trace.
-/

namespace TrafficMonitor.Summary

open Bytes Hidden Maps Stats Tally

/-! ## Labels and endpoints -/

/-- What the helpers capture. A set of addresses or a store that is not configured is the empty
one. -/
structure Context where
  nicknames : Map Bytes Bytes := ∅
  serverIps : Finset Bytes := ∅
  dashboardIps : Finset Bytes := ∅
  resolver : Option IPRangeResolver := none
  hiddenStore : HiddenEntitiesStore := {}

/-- The set with the networks of its public addresses. -/
def addEntityStrings (resolver : IPRangeResolver) (set : Finset Bytes) : Finset Bytes :=
  set ∪ ((set.filter fun key => !isLanIP key).image resolver.entityFor).filter fun entity =>
    !IPRangeResolver.isUnknownEntity entity

def Context.serverIpSnap (x : Context) : Finset Bytes :=
  match x.resolver with
  | none => x.serverIps
  | some resolver => addEntityStrings resolver x.serverIps

def Context.dashboardIpSnap (x : Context) : Finset Bytes :=
  match x.resolver with
  | none => x.dashboardIps
  | some resolver => addEntityStrings resolver x.dashboardIps

def isHexClientId (s : Bytes) : Bool := s.length = 64 && s.all isHexDigit

def AT : UInt8 := 64
def PIPE : UInt8 := 124

/-- The scope and the address of `@[scope]:address`. -/
def parseReporterScoped (s : Bytes) : Option (Bytes × Bytes) :=
  if s.length < 5 then none
  else match s with
    | a :: b :: rest =>
      if a ≠ AT ∨ b ≠ LBRACKET then none
      else
        let scope := rest.takeWhile (· ≠ RBRACKET)
        match rest.drop scope.length with
        | _ :: c :: lanIp => if c = COLON then some (scope, lanIp) else none
        | _ => none
    | _ => none

/-- The nickname of a client, if it has one. -/
def Context.displayClient (x : Context) (s : Bytes) : Bytes :=
  if isHexClientId s then get x.nicknames s s else s

def Context.isInfraEndpoint (x : Context) (key : Bytes) : Bool :=
  match parseReporterScoped key with
  | some (_, lanIp) => lanIp ∈ x.serverIpSnap || lanIp ∈ x.dashboardIpSnap
  | none => key ∈ x.serverIpSnap || key ∈ x.dashboardIpSnap

def Context.resolveEntityMain (x : Context) (s : Bytes) : Bytes :=
  if isHexClientId s then get x.nicknames s s
  else match parseReporterScoped s with
    | some (scope, _) =>
      if scope = kExtIPNull then ascii "LAN (no internet)"
      else ascii "LAN (" ++ scope ++ ascii ")"
    | none => if isLanIP s then ascii "Local Devices" else s

/-- The client and the interface of a key. -/
def splitKey (key : Bytes) : Bytes × Bytes :=
  if PIPE ∈ key then
    let client := key.takeWhile (· ≠ PIPE)
    (client, key.drop (client.length + 1))
  else ([], key)

def isIfaceHidden (store : HiddenEntitiesStore) (clientId iface : Bytes) : Bool :=
  clientId ∈ store.hiddenClients || (clientId, iface) ∈ store.hiddenIfaces

/-! ## The loops -/

structure SummaryKey where
  client : Bytes
  iface : Bytes
  src : Bytes
  dst : Bytes
  deriving DecidableEq

structure LanStats where
  outPkts : Nat := 0
  outBytes : Nat := 0
  inPkts : Nat := 0
  inBytes : Nat := 0
  deriving DecidableEq

abbrev Groups := Map SummaryKey Counter

/-- What the loops count. -/
structure Figures where
  summaryGroups : Groups := ∅
  internetGroups : Groups := ∅
  localGroups : Groups := ∅
  overheadGroups : Groups := ∅
  totalAllBytes : Nat := 0
  overheadBytes : Nat := 0
  overheadPkts : Nat := 0
  localBytes : Nat := 0
  localPkts : Nat := 0
  lanMap : Map Bytes LanStats := ∅

def Context.isOvhd (x : Context) (k : FlowKey) : Bool :=
  x.isInfraEndpoint k.src || x.isInfraEndpoint k.dst || (isHexClientId k.src && isHexClientId k.dst)

/-- An endpoint without a client. -/
def isUnident (s : Bytes) : Bool := (parseReporterScoped s).isSome || isLanIP s

def isLocal (s : Bytes) : Bool := isUnident s || isHexClientId s

def Context.summaryKey (x : Context) (client iface : Bytes) (k : FlowKey) : SummaryKey :=
  ⟨x.displayClient client, iface, x.resolveEntityMain k.src, x.resolveEntityMain k.dst⟩

def addTo (groups : Groups) (k : SummaryKey) (c : Counter) : Groups :=
  bump Counter.accumulate {} groups k c

def LanStats.addOut (ls : LanStats) (c : Counter) : LanStats :=
  { ls with outPkts := add64 ls.outPkts c.packets, outBytes := add64 ls.outBytes c.bytes }

def LanStats.addIn (ls : LanStats) (c : Counter) : LanStats :=
  { ls with inPkts := add64 ls.inPkts c.packets, inBytes := add64 ls.inBytes c.bytes }

def countLan (k : FlowKey) (c : Counter) (lanMap : Map Bytes LanStats) : Map Bytes LanStats :=
  let lanMap := if isUnident k.src then bump LanStats.addOut {} lanMap k.src c else lanMap
  if isUnident k.dst then bump LanStats.addIn {} lanMap k.dst c else lanMap

/-- The body of the inner loop. -/
def countFlow (x : Context) (client iface : Bytes) (s : Figures) (k : FlowKey) (c : Counter) :
    Figures :=
  let s := { s with totalAllBytes := add64 s.totalAllBytes c.bytes }
  let rk := x.summaryKey client iface k
  if x.isOvhd k then
    { s with
      overheadPkts := add64 s.overheadPkts c.packets
      overheadBytes := add64 s.overheadBytes c.bytes
      overheadGroups := addTo s.overheadGroups rk c }
  else
    let s := { s with summaryGroups := addTo s.summaryGroups rk c }
    let s :=
      if isLocal k.src && isLocal k.dst then
        { s with
          localGroups := addTo s.localGroups rk c
          localPkts := add64 s.localPkts c.packets
          localBytes := add64 s.localBytes c.bytes }
      else { s with internetGroups := addTo s.internetGroups rk c }
    { s with lanMap := countLan k c s.lanMap }

def classify (x : Context) (entityFlows : Map Bytes (Map FlowKey Counter)) : Figures :=
  entityFlows.entries.foldl (fun s kv =>
    let (client, iface) := splitKey kv.1
    if isIfaceHidden x.hiddenStore client iface then s
    else kv.2.entries.foldl (fun s ek => countFlow x client iface s ek.1 ek.2) s) {}

/-! ## Flows -/

/-- An entity flow of a client's interface. -/
structure Flow where
  client : Bytes
  iface : Bytes
  key : FlowKey
  counter : Counter

/-- The interface is left out. -/
def hidden (x : Context) (key : Bytes) : Bool :=
  isIfaceHidden x.hiddenStore (splitKey key).1 (splitKey key).2

/-- The flows of the interfaces that are not hidden. -/
def visibleFlows (x : Context) (entityFlows : Map Bytes (Map FlowKey Counter)) : List Flow :=
  entityFlows.entries.flatMap fun kv =>
    if hidden x kv.1 then []
    else kv.2.entries.map fun ek => ⟨(splitKey kv.1).1, (splitKey kv.1).2, ek.1, ek.2⟩

def count (x : Context) (s : Figures) (f : Flow) : Figures :=
  countFlow x f.client f.iface s f.key f.counter

/-- **The loops.** -/
theorem classify_eq (x : Context) (entityFlows : Map Bytes (Map FlowKey Counter)) :
    classify x entityFlows = (visibleFlows x entityFlows).foldl (count x) {} := by
  rw [classify, visibleFlows, List.foldl_flatMap]
  congr 1
  funext s kv
  dsimp only
  cases h : hidden x kv.1 with
  | false =>
    have hshown : isIfaceHidden x.hiddenStore (splitKey kv.1).1 (splitKey kv.1).2 = false := h
    simp [hshown, List.foldl_map, count]
  | true =>
    have hhidden : isIfaceHidden x.hiddenStore (splitKey kv.1).1 (splitKey kv.1).2 = true := h
    simp [hhidden]

/-- How a flow is counted. -/
inductive Class
  | overhead
  | lan
  | internet
  deriving DecidableEq

def classOf (x : Context) (f : Flow) : Class :=
  if x.isOvhd f.key then .overhead
  else if isLocal f.key.src && isLocal f.key.dst then .lan
  else .internet

def flowsOf (x : Context) (c : Class) (l : List Flow) : List Flow :=
  l.filter fun f => classOf x f = c

/-- The flows that are no overhead. -/
def regular (x : Context) (l : List Flow) : List Flow :=
  l.filter fun f => classOf x f ≠ .overhead

def bytesOf (l : List Flow) : Nat := (l.map (·.counter.bytes)).sum

def packetsOf (l : List Flow) : Nat := (l.map (·.counter.packets)).sum

def rowKey (x : Context) (f : Flow) : SummaryKey := x.summaryKey f.client f.iface f.key

def groupsOf (x : Context) (l : List Flow) : Groups :=
  tally Counter.accumulate {} (rowKey x) Flow.counter l

/-! ## Figures -/

/-- Each figure is the tally of the flows of its classes. -/
structure Counted (x : Context) (l : List Flow) (s : Figures) : Prop where
  totalAllBytes : s.totalAllBytes = bytesOf l % 2 ^ 64
  overheadBytes : s.overheadBytes = bytesOf (flowsOf x .overhead l) % 2 ^ 64
  overheadPkts : s.overheadPkts = packetsOf (flowsOf x .overhead l) % 2 ^ 64
  localBytes : s.localBytes = bytesOf (flowsOf x .lan l) % 2 ^ 64
  localPkts : s.localPkts = packetsOf (flowsOf x .lan l) % 2 ^ 64
  overheadGroups : s.overheadGroups = groupsOf x (flowsOf x .overhead l)
  summaryGroups : s.summaryGroups = groupsOf x (regular x l)
  localGroups : s.localGroups = groupsOf x (flowsOf x .lan l)
  internetGroups : s.internetGroups = groupsOf x (flowsOf x .internet l)

/-- The body counts a flow in the figures of its class, and in those of all regular flows. -/
theorem count_eq (x : Context) (s : Figures) (f : Flow) : count x s f =
    { totalAllBytes := add64 s.totalAllBytes f.counter.bytes
      overheadBytes := if classOf x f = .overhead then add64 s.overheadBytes f.counter.bytes
        else s.overheadBytes
      overheadPkts := if classOf x f = .overhead then add64 s.overheadPkts f.counter.packets
        else s.overheadPkts
      localBytes := if classOf x f = .lan then add64 s.localBytes f.counter.bytes else s.localBytes
      localPkts := if classOf x f = .lan then add64 s.localPkts f.counter.packets else s.localPkts
      overheadGroups := if classOf x f = .overhead then
          addTo s.overheadGroups (rowKey x f) f.counter
        else s.overheadGroups
      summaryGroups := if classOf x f ≠ .overhead then
          addTo s.summaryGroups (rowKey x f) f.counter
        else s.summaryGroups
      localGroups := if classOf x f = .lan then addTo s.localGroups (rowKey x f) f.counter
        else s.localGroups
      internetGroups := if classOf x f = .internet then
          addTo s.internetGroups (rowKey x f) f.counter
        else s.internetGroups
      lanMap := if classOf x f ≠ .overhead then countLan f.key f.counter s.lanMap
        else s.lanMap } := by
  unfold count countFlow classOf rowKey
  dsimp only
  split
  · simp
  · split <;> simp

section

variable (P : Flow → Prop) [DecidablePred P] (l : List Flow) (f : Flow)

theorem bytes_snoc : (if P f then add64 (bytesOf (l.filter (P ·)) % 2 ^ 64) f.counter.bytes
    else bytesOf (l.filter (P ·)) % 2 ^ 64) = bytesOf ((l ++ [f]).filter (P ·)) % 2 ^ 64 := by
  by_cases h : P f <;> simp [h, bytesOf, List.filter_append, add64]

theorem packets_snoc : (if P f then add64 (packetsOf (l.filter (P ·)) % 2 ^ 64) f.counter.packets
    else packetsOf (l.filter (P ·)) % 2 ^ 64) = packetsOf ((l ++ [f]).filter (P ·)) % 2 ^ 64 := by
  by_cases h : P f <;> simp [h, packetsOf, List.filter_append, add64]

theorem groups_snoc (x : Context) : (if P f then
      addTo (groupsOf x (l.filter (P ·))) (rowKey x f) f.counter
    else groupsOf x (l.filter (P ·))) = groupsOf x ((l ++ [f]).filter (P ·)) := by
  rw [List.filter_append]
  by_cases h : P f
  · simp only [h, ↓reduceIte, List.filter_cons_of_pos, decide_true, List.filter_nil, groupsOf,
      tally_snoc, addTo]
  · simp [h]

end

/-- **One flow.** -/
theorem counted_count {x : Context} {l : List Flow} {s : Figures} (h : Counted x l s) (f : Flow) :
    Counted x (l ++ [f]) (count x s f) := by
  rw [count_eq]
  constructor
  · rw [h.totalAllBytes]
    simp [bytesOf, add64]
  · rw [h.overheadBytes]
    exact bytes_snoc (classOf x · = .overhead) l f
  · rw [h.overheadPkts]
    exact packets_snoc (classOf x · = .overhead) l f
  · rw [h.localBytes]
    exact bytes_snoc (classOf x · = .lan) l f
  · rw [h.localPkts]
    exact packets_snoc (classOf x · = .lan) l f
  · rw [h.overheadGroups]
    exact groups_snoc (classOf x · = .overhead) l f x
  · rw [h.summaryGroups]
    exact groups_snoc (classOf x · ≠ .overhead) l f x
  · rw [h.localGroups]
    exact groups_snoc (classOf x · = .lan) l f x
  · rw [h.internetGroups]
    exact groups_snoc (classOf x · = .internet) l f x

theorem figures_of_flows (x : Context) (l : List Flow) : Counted x l (l.foldl (count x) {}) := by
  induction l using List.reverseRecOn with
  | nil => exact ⟨rfl, rfl, rfl, rfl, rfl, rfl, rfl, rfl, rfl⟩
  | append_singleton l f ih =>
    rw [List.foldl_append, List.foldl_cons, List.foldl_nil]
    exact counted_count ih f

/-! ## Sums -/

section

variable (x : Context) (l : List Flow)

/-- Every flow is of one class. -/
theorem sum_classes (m : Flow → Nat) :
    ((flowsOf x .overhead l).map m).sum + ((flowsOf x .lan l).map m).sum +
      ((flowsOf x .internet l).map m).sum = (l.map m).sum := by
  induction l with
  | nil => rfl
  | cons f l ih =>
    simp only [flowsOf] at ih ⊢
    cases hc : classOf x f <;>
      simp only [hc, List.filter_cons, decide_true, decide_false, reduceCtorEq, ↓reduceIte,
        Bool.false_eq_true, List.map_cons, List.sum_cons] <;> omega

/-- A regular flow is local or internet. -/
theorem sum_regular (m : Flow → Nat) : ((regular x l).map m).sum =
    ((flowsOf x .lan l).map m).sum + ((flowsOf x .internet l).map m).sum := by
  have hall := sum_classes x l m
  have hsplit := List.sum_map_filter_add_sum_map_filter_not (classOf x · = .overhead) m l
  simp only [flowsOf, regular, ne_eq] at hall hsplit ⊢
  omega

/-- The exact counts of a row. -/
def rowOf (k : SummaryKey) : Counter :=
  ⟨packetsOf (l.filter fun f => rowKey x f = k), bytesOf (l.filter fun f => rowKey x f = k)⟩

theorem sum_filter_le (m : Flow → Nat) (p : Flow → Bool) :
    ((l.filter p).map m).sum ≤ (l.map m).sum :=
  (List.filter_sublist.map m).sum_le_sum fun _ _ => Nat.zero_le _

variable {l}

theorem total_bytes_groupsOf (hb : bytesOf l < 2 ^ 64) :
    total Counter.bytes (groupsOf x l) = bytesOf l :=
  total_tally (f := Counter.accumulate) (d := {}) (g := Counter.bytes) (h := Counter.bytes)
    rfl (fun _ _ => rfl) hb

theorem total_packets_groupsOf (hp : packetsOf l < 2 ^ 64) :
    total Counter.packets (groupsOf x l) = packetsOf l :=
  total_tally (f := Counter.accumulate) (d := {}) (g := Counter.packets) (h := Counter.packets)
    rfl (fun _ _ => rfl) hp

theorem get_groupsOf (hb : bytesOf l < 2 ^ 64) (hp : packetsOf l < 2 ^ 64) (k : SummaryKey) :
    get (groupsOf x l) k {} = rowOf x l k := by
  have hbytes : (get (groupsOf x l) k {}).bytes = (rowOf x l k).bytes % 2 ^ 64 :=
    get_tally (f := Counter.accumulate) (d := {}) (g := Counter.bytes) (h := Counter.bytes)
      rfl (fun _ _ => rfl) l k
  have hpackets : (get (groupsOf x l) k {}).packets = (rowOf x l k).packets % 2 ^ 64 :=
    get_tally (f := Counter.accumulate) (d := {}) (g := Counter.packets) (h := Counter.packets)
      rfl (fun _ _ => rfl) l k
  have hroomb : (rowOf x l k).bytes < 2 ^ 64 := (sum_filter_le l _ _).trans_lt hb
  have hroomp : (rowOf x l k).packets < 2 ^ 64 := (sum_filter_le l _ _).trans_lt hp
  rw [Nat.mod_eq_of_lt hroomb] at hbytes
  rw [Nat.mod_eq_of_lt hroomp] at hpackets
  exact congrArg₂ Counter.mk hpackets hbytes

variable {x}

/-- The sums of a group without wrap. -/
structure Rows (x : Context) (l : List Flow) (groups : Groups) : Prop where
  bytes : total Counter.bytes groups = bytesOf l
  packets : total Counter.packets groups = packetsOf l
  row : ∀ k, get groups k {} = rowOf x l k

theorem rows_filter {p : Flow → Bool} {groups : Groups} (hb : bytesOf l < 2 ^ 64)
    (hp : packetsOf l < 2 ^ 64) (h : groups = groupsOf x (l.filter p)) :
    Rows x (l.filter p) groups := by
  have hbytes : bytesOf (l.filter p) < 2 ^ 64 := (sum_filter_le l _ p).trans_lt hb
  have hpackets : packetsOf (l.filter p) < 2 ^ 64 := (sum_filter_le l _ p).trans_lt hp
  subst h
  exact ⟨total_bytes_groupsOf x hbytes, total_packets_groupsOf x hpackets,
    get_groupsOf x hbytes hpackets⟩

/-- The figures without wrap. -/
structure Exact (x : Context) (l : List Flow) (s : Figures) : Prop where
  totalAllBytes : s.totalAllBytes = bytesOf l
  overheadBytes : s.overheadBytes = bytesOf (flowsOf x .overhead l)
  overheadPkts : s.overheadPkts = packetsOf (flowsOf x .overhead l)
  localBytes : s.localBytes = bytesOf (flowsOf x .lan l)
  localPkts : s.localPkts = packetsOf (flowsOf x .lan l)
  overheadRows : Rows x (flowsOf x .overhead l) s.overheadGroups
  localRows : Rows x (flowsOf x .lan l) s.localGroups
  internetRows : Rows x (flowsOf x .internet l) s.internetGroups
  summaryRows : Rows x (regular x l) s.summaryGroups

theorem exact_of_counted {s : Figures} (hs : Counted x l s) (hb : bytesOf l < 2 ^ 64)
    (hp : packetsOf l < 2 ^ 64) : Exact x l s := by
  have hbytes (p : Flow → Bool) : bytesOf (l.filter p) < 2 ^ 64 :=
    (sum_filter_le l _ p).trans_lt hb
  have hpackets (p : Flow → Bool) : packetsOf (l.filter p) < 2 ^ 64 :=
    (sum_filter_le l _ p).trans_lt hp
  constructor
  · exact hs.totalAllBytes.trans (Nat.mod_eq_of_lt hb)
  · exact hs.overheadBytes.trans (Nat.mod_eq_of_lt (hbytes _))
  · exact hs.overheadPkts.trans (Nat.mod_eq_of_lt (hpackets _))
  · exact hs.localBytes.trans (Nat.mod_eq_of_lt (hbytes _))
  · exact hs.localPkts.trans (Nat.mod_eq_of_lt (hpackets _))
  · exact rows_filter hb hp hs.overheadGroups
  · exact rows_filter hb hp hs.localGroups
  · exact rows_filter hb hp hs.internetGroups
  · exact rows_filter hb hp hs.summaryGroups

end

/-! ## Hidden interfaces -/

/-- The flows of the interfaces that are shown. -/
def shown (x : Context) (entityFlows : Map Bytes (Map FlowKey Counter)) :
    Map Bytes (Map FlowKey Counter) := keep (!hidden x ·) entityFlows

/-- Without the store, the flows of the other interfaces are counted in the same way. -/
theorem classify_shown (x : Context) (entityFlows : Map Bytes (Map FlowKey Counter)) :
    classify x entityFlows = classify { x with hiddenStore := {} } (shown x entityFlows) := by
  have hcount : count { x with hiddenStore := {} } = count x := rfl
  have hnone (key : Bytes) : hidden { x with hiddenStore := {} } key = false := by
    simp [hidden, isIfaceHidden]
  have hflows : visibleFlows { x with hiddenStore := {} } (shown x entityFlows) =
      visibleFlows x entityFlows := by
    simp only [visibleFlows, hnone, shown, keep, Bool.false_eq_true, ↓reduceIte]
    induction entityFlows.entries with
    | nil => rfl
    | cons kv l ih =>
      cases h : hidden x kv.1 <;> simp [h, ih]
  rw [classify_eq, classify_eq, hcount, hflows]

/-- **Partition.** If the counters of the visible flows add up without wrap: each of them is
counted once, as overhead, local or internet; the figures add up, and so do the rows; a row counts
the flows that have its labels; and hidden interfaces contribute to no figure. -/
theorem summary_partition (x : Context) (snap : Snapshot)
    (hb : bytesOf (visibleFlows x snap.entityFlows) < 2 ^ 64)
    (hp : packetsOf (visibleFlows x snap.entityFlows) < 2 ^ 64) :
    let s := classify x snap.entityFlows
    let l := visibleFlows x snap.entityFlows
    (s.totalAllBytes = bytesOf l ∧
      s.overheadBytes = bytesOf (flowsOf x .overhead l) ∧
      s.overheadPkts = packetsOf (flowsOf x .overhead l) ∧
      s.localBytes = bytesOf (flowsOf x .lan l) ∧ s.localPkts = packetsOf (flowsOf x .lan l) ∧
      total Counter.bytes s.overheadGroups = s.overheadBytes ∧
      total Counter.bytes s.localGroups = s.localBytes ∧
      total Counter.bytes s.internetGroups = bytesOf (flowsOf x .internet l)) ∧
    s.totalAllBytes = s.overheadBytes + s.localBytes + total Counter.bytes s.internetGroups ∧
    total Counter.bytes s.summaryGroups =
      total Counter.bytes s.localGroups + total Counter.bytes s.internetGroups ∧
    total Counter.packets s.summaryGroups =
      total Counter.packets s.localGroups + total Counter.packets s.internetGroups ∧
    (∀ k, get s.overheadGroups k {} = rowOf x (flowsOf x .overhead l) k ∧
      get s.localGroups k {} = rowOf x (flowsOf x .lan l) k ∧
      get s.internetGroups k {} = rowOf x (flowsOf x .internet l) k ∧
      get s.summaryGroups k {} = rowOf x (regular x l) k) ∧
    s = classify { x with hiddenStore := {} } (shown x snap.entityFlows) := by
  intro s l
  have hs : Exact x l s := by
    have h := figures_of_flows x l
    rw [← classify_eq] at h
    exact exact_of_counted h hb hp
  refine ⟨⟨hs.totalAllBytes, hs.overheadBytes, hs.overheadPkts, hs.localBytes, hs.localPkts, ?_, ?_,
    hs.internetRows.bytes⟩, ?_, ?_, ?_, ?_, classify_shown x _⟩
  · rw [hs.overheadRows.bytes, hs.overheadBytes]
  · rw [hs.localRows.bytes, hs.localBytes]
  · rw [hs.totalAllBytes, hs.overheadBytes, hs.localBytes, hs.internetRows.bytes]
    exact (sum_classes x l _).symm
  · rw [hs.summaryRows.bytes, hs.localRows.bytes, hs.internetRows.bytes]
    exact sum_regular x l _
  · rw [hs.summaryRows.packets, hs.localRows.packets, hs.internetRows.packets]
    exact sum_regular x l _
  · intro k
    exact ⟨hs.overheadRows.row k, hs.localRows.row k, hs.internetRows.row k, hs.summaryRows.row k⟩

/-! Two interfaces of a client: one is shown, where two addresses share the label of the site, and
one is hidden. -/

private def siteContext : Context where
  serverIps := {ascii "10.0.0.1"}
  hiddenStore := { hiddenIfaces := {(ascii "c", ascii "wlan0")} }

private def flowsFrom (l : List (String × String × Nat × Nat)) : Map FlowKey Counter :=
  l.foldl (fun m e => m.insert ⟨ascii e.1, ascii e.2.1⟩ ⟨e.2.2.1, e.2.2.2⟩) ∅

private def siteFlows : Snapshot where
  entityFlows := AList.insert (ascii "c|eth0")
    (flowsFrom [("@[null]:10.0.0.1", "AS1", 1, 10),
      ("@[null]:10.0.0.2", "@[null]:10.0.0.3", 2, 20),
      ("@[null]:10.0.0.3", "@[null]:10.0.0.2", 3, 30), ("@[null]:10.0.0.2", "AS1", 4, 40)])
    (AList.insert (ascii "c|wlan0") (flowsFrom [("AS1", "AS2", 9, 900)]) ∅)

theorem summary_partition_site :
    (classify siteContext siteFlows.entityFlows).totalAllBytes = 100 ∧
      get (classify siteContext siteFlows.entityFlows).localGroups
          ⟨ascii "c", ascii "eth0", ascii "LAN (no internet)", ascii "LAN (no internet)"⟩ {} =
        ⟨5, 50⟩ := by
  obtain ⟨⟨htotal, -⟩, -, -, -, hrow, -⟩ :=
    summary_partition siteContext siteFlows (by decide +kernel) (by decide +kernel)
  refine ⟨htotal.trans (by decide +kernel), (hrow _).2.1.trans (by decide +kernel)⟩

end TrafficMonitor.Summary
