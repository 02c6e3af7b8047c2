import Mathlib.Data.List.Chain
import TrafficMonitor.Ios.TcpRelay

/-!
# Streams through the TCP relay

The segments of one client connection reach `handlePacket` in any order, retransmitted,
overlapping, or with the FIN on a data segment: every packet runs as its own task.

Proved here, for every client stream of any length, sequence numbers modulo 2^32, and any
interleaving with the server's side, sweeps and the packets of other connections:

* `stream_intact_of_run`: what the outgoing connection is given is a prefix of the stream,
  its end is signalled after the last byte, and every acknowledgement is the number right
  after what has been given, never going back, in every run in which each segment with
  payload starts where the last one ended and has no FIN, and neither a SYN nor a FIN comes
  out of turn;
* `retransmission_duplicated`: without that condition a retransmitted segment is given to
  the connection twice.

`handlePacket` forwards every payload that it is handed; it compares no sequence numbers.
-/

namespace TrafficMonitor.TcpRelay

open Runs

/-! ## Streams and sequence numbers -/

def bytesOf (g : List Given) : Bytes := g.flatMap fun
  | .data payload => payload
  | .eof => []

/-- The sequence numbers that what was given takes up: its bytes, and one for the end. -/
def size (g : List Given) : Nat := (bytesOf g).length + if Given.eof ∈ g then 1 else 0

/-- The sequence number right after what was given; the SYN takes one. -/
def seqAfter (isn : UInt32) (g : List Given) : UInt32 := isn + 1 + UInt32.ofNat (size g)

/-- `b` does not lie behind `a` on the circle of sequence numbers. -/
def SerialLe (a b : UInt32) : Prop := (b - a).toNat < 2 ^ 31

def maxPayload : Nat := 65535

/-- A segment of the stream, from its `off`-th byte on; the FIN stands at the stream's end. -/
def Segment (isn : UInt32) (stream : Bytes) (off : Nat) (tcp : TCPHeader) : Prop :=
  tcp.seq = isn + 1 + UInt32.ofNat off ∧ tcp.payload <+: stream.drop off ∧
    tcp.payload.length ≤ maxPayload ∧
    (tcp.isFIN = true → off + tcp.payload.length = stream.length)

def TCPHeader.opens (tcp : TCPHeader) : Bool := tcp.isSYN && !tcp.isACK

/-- The packets of the key are those of one client connection. -/
def FromClient (isn : UInt32) (stream : Bytes) (key : FlowKey) : Action → Prop
  | .packet k tcp _ => k = key → tcp.isRST = false →
      if tcp.opens then tcp.seq = isn else ∃ off, Segment isn stream off tcp
  | _ => True

/-- A SYN comes before anything was forwarded; a segment with payload starts at the first
byte not yet forwarded and carries no FIN, and none follows the FIN; a first FIN comes when
all bytes have been forwarded. -/
def InOrder (isn : UInt32) (stream : Bytes) (key : FlowKey) (s : State) : Action → Prop
  | .packet k tcp _ => k = key → tcp.isRST = false →
      if tcp.opens then ∀ conn ∈ s.conns, conn.key = key → conn.given = []
      else ∀ st ∈ s.flows key,
        (tcp.payload ≠ [] → st.clientFinSeen = false ∧ tcp.isFIN = false ∧
          Segment isn stream (bytesOf (s.givenTo st.conn)).length tcp) ∧
        (tcp.payload = [] → tcp.isFIN = true → st.clientFinSeen = true ∨
          (bytesOf (s.givenTo st.conn)).length = stream.length)
  | _ => True

instance (isn : UInt32) (stream : Bytes) (off : Nat) (tcp : TCPHeader) :
    Decidable (Segment isn stream off tcp) := by
  unfold Segment; infer_instance

instance (isn : UInt32) (stream : Bytes) (key : FlowKey) (s : State) :
    ∀ a, Decidable (InOrder isn stream key s a)
  | .packet .. => by unfold InOrder; infer_instance
  | .tick _ | .sweep | .cancelAll | .received .. | .failed _ | .runTask _ => isTrue trivial

/-- What a connection may be given: a prefix of the stream, and the end after all of it. -/
def GoodGiven (stream : Bytes) (g : List Given) : Prop :=
  bytesOf g <+: stream ∧ ∀ pre post, g = pre ++ .eof :: post → bytesOf pre = stream ∧ post = []

/-- The acknowledgement numbers sent to the client of the key. -/
def acks (key : FlowKey) (log : List Event) : List UInt32 := log.filterMap fun
  | .wrote _ _ _ p => if p.key = key then some p.ack else none
  | .removed .. => none

structure StreamIntact (isn : UInt32) (stream : Bytes) (key : FlowKey) (s : State) : Prop where
  forwarded : ∀ conn ∈ s.conns, conn.key = key → GoodGiven stream conn.given
  acked : ∀ cause f g p, .wrote cause f g p ∈ s.log → p.key = key → p.ack = seqAfter isn g
  ahead : (acks key s.log).IsChain SerialLe

/-! ## Lemmas on streams -/

theorem bytesOf_append (g h : List Given) : bytesOf (g ++ h) = bytesOf g ++ bytesOf h := by
  simp [bytesOf]

theorem size_nil : size [] = 0 := rfl

theorem size_data {g : List Given} {p : Bytes} : size (g ++ [.data p]) = size g + p.length := by
  simp only [size, bytesOf, List.flatMap_append, List.flatMap_cons, List.flatMap_nil,
    List.length_append, List.append_nil, List.mem_append, List.mem_singleton, reduceCtorEq,
    or_false]
  omega

theorem size_eof {g : List Given} (h : Given.eof ∉ g) : size (g ++ [.eof]) = size g + 1 := by
  simp [size, bytesOf, h]

theorem size_of_open {g : List Given} (h : Given.eof ∉ g) : size g = (bytesOf g).length := by
  simp [size, h]

theorem seqAfter_of_size {isn : UInt32} {g h : List Given} {n : Nat} (e : size h = size g + n) :
    seqAfter isn h = seqAfter isn g + UInt32.ofNat n := by
  rw [seqAfter, e, UInt32.ofNat_add, ← UInt32.add_assoc]
  rfl

theorem serialLe_add {a : UInt32} {n : Nat} (h : n < 2 ^ 31) : SerialLe a (a + UInt32.ofNat n) := by
  unfold SerialLe
  rw [UInt32.add_comm, UInt32.add_sub_cancel, UInt32.toNat_ofNat']
  exact lt_of_le_of_lt (Nat.mod_le _ _) h

theorem serialLe_refl (a : UInt32) : SerialLe a a := by
  simp [SerialLe]

theorem goodGiven_nil (stream : Bytes) : GoodGiven stream [] :=
  ⟨List.nil_prefix, fun _ _ h => by simp at h⟩

theorem goodGiven_data {stream p : Bytes} {g : List Given} (hg : GoodGiven stream g)
    (ho : Given.eof ∉ g) (hp : p <+: stream.drop (bytesOf g).length) :
    GoodGiven stream (g ++ [.data p]) := by
  constructor
  · obtain ⟨t, ht⟩ := hg.1
    rw [← ht, List.drop_left] at hp
    rw [bytesOf_append, ← ht]
    simpa [bytesOf] using hp
  · intro pre post he
    have : Given.eof ∈ g ++ [.data p] := by simp [he]
    simp [ho] at this

theorem goodGiven_eof {stream : Bytes} {g : List Given} (hg : GoodGiven stream g)
    (ho : Given.eof ∉ g) (hl : (bytesOf g).length = stream.length) :
    GoodGiven stream (g ++ [.eof]) := by
  have hall : bytesOf g = stream := hg.1.eq_of_length hl
  constructor
  · rw [bytesOf_append, hall]
    exact (List.append_nil stream).symm ▸ List.prefix_refl stream
  · intro pre post he
    rcases List.eq_nil_or_concat post with rfl | ⟨l, x, rfl⟩
    · obtain ⟨rfl, _⟩ := List.append_inj' he rfl
      exact ⟨hall, rfl⟩
    · rw [List.concat_eq_append, ← List.cons_append, ← List.append_assoc] at he
      obtain ⟨rfl, _⟩ := List.append_inj' he rfl
      simp at ho

/-! ## The acknowledgements -/

theorem acks_append (key : FlowKey) (l m : List Event) :
    acks key (l ++ m) = acks key l ++ acks key m := by
  simp [acks]

/-- Repeating one number at the end keeps the order. -/
theorem chain_append_const {l m : List UInt32} {a : UInt32} (hl : l.IsChain SerialLe)
    (hlast : ∀ x ∈ l.getLast?, SerialLe x a) (hm : ∀ y ∈ m, y = a) :
    (l ++ m).IsChain SerialLe := by
  rw [List.isChain_append]
  refine ⟨hl, ?_, fun x hx y hy => ?_⟩
  · rw [List.eq_replicate_iff.mpr ⟨rfl, hm⟩]
    exact List.isChain_replicate_of_rel _ (serialLe_refl a)
  · rw [hm y (List.mem_of_mem_head? hy)]
    exact hlast x hx

theorem acks_of_answers {key : FlowKey} {s : State} {es : List Event}
    (h : ∀ e ∈ es, e.Answers key s) :
    ∀ y ∈ acks key es, ∃ st, s.flows key = some st ∧ y = st.clientSeqNext := by
  intro y hy
  obtain ⟨e, he, hy⟩ := List.mem_filterMap.mp hy
  cases e with
  | removed cause f => cases hy
  | wrote cause f g p =>
    dsimp only at hy
    split at hy
    · cases hy
      obtain ⟨st, hst, hack, _⟩ := h _ he ‹_›
      exact ⟨st, hst, hack⟩
    · cases hy

/-! ## The invariant -/

variable {isn : UInt32} {stream : Bytes} {key : FlowKey} {s s' : State}

/-- The flow of the key expects what follows the bytes, and the end, that its connection has
been given, and every packet was right when it was written. -/
structure Tracked (isn : UInt32) (stream : Bytes) (key : FlowKey) (s : State) : Prop where
  keyed : Keyed s
  good : ∀ c g, s.given key c = some g → GoodGiven stream g
  flow : ∀ st, s.flows key = some st → ∀ g, s.given key st.conn = some g →
    st.clientSeqNext = seqAfter isn g ∧ (st.clientFinSeen = true ↔ .eof ∈ g)
  acked : ∀ cause f g p, .wrote cause f g p ∈ s.log → p.key = key →
    p.ack = seqAfter isn g ∧ ∃ c g', s.given key c = some g' ∧ g <+: g'
  ahead : (acks key s.log).IsChain SerialLe

/-- An open flow has also acknowledged all of it. -/
structure InSync (isn : UInt32) (stream : Bytes) (key : FlowKey) (s : State) : Prop extends
    Tracked isn stream key s where
  last : ∀ st, s.flows key = some st → (acks key s.log).getLast? = some st.clientSeqNext

theorem inSync_init : InSync isn stream key {} where
  keyed := by simp [Keyed]
  good := by simp [State.given]
  flow := by simp
  acked := by simp
  ahead := by simp [acks]
  last := by simp

theorem acked_of_quiet (hi : Tracked isn stream key s) (hq : Quiet key s s') :
    ∀ cause f g p, .wrote cause f g p ∈ s'.log → p.key = key →
      p.ack = seqAfter isn g ∧ ∃ c g', s'.given key c = some g' ∧ g <+: g' := by
  intro cause f g p he hp
  obtain ⟨es, hes, ha⟩ := hq.log
  rw [hes] at he
  rcases List.mem_append.mp he with he | he
  · obtain ⟨hack, c, g', hg', hpre⟩ := hi.acked cause f g p he hp
    exact ⟨hack, c, g', by rw [hq.given, hg'], hpre⟩
  · obtain ⟨st, hst, hack, hg⟩ := ha _ he hp
    exact ⟨hack.trans (hi.flow st hst g hg).1, st.conn, g, by rw [hq.given, hg],
      List.prefix_refl g⟩

theorem flow_of_quiet (hi : Tracked isn stream key s) (hq : Quiet key s s') :
    ∀ st, s'.flows key = some st → ∀ g, s'.given key st.conn = some g →
      st.clientSeqNext = seqAfter isn g ∧ (st.clientFinSeen = true ↔ .eof ∈ g) := by
  intro st' hst' g hg
  obtain ⟨st, hst, hc, hseq, hfin⟩ := hq.flow st' hst'
  rw [hq.given, hc] at hg
  rw [hseq, hfin]
  exact hi.flow st hst g hg

/-- What is quiet for the key keeps it in sync. -/
theorem inSync_quiet (hi : InSync isn stream key s) (hq : Quiet key s s') :
    InSync isn stream key s' := by
  obtain ⟨es, hes, ha⟩ := hq.log
  have hacks := acks_of_answers ha
  refine ⟨⟨hq.keyed, fun c g hg => hi.good c g (hq.given c ▸ hg), flow_of_quiet hi.toTracked hq,
    acked_of_quiet hi.toTracked hq, ?_⟩, ?_⟩
  · rw [hes, acks_append]
    cases hf : s.flows key with
    | none =>
      have : acks key es = [] := List.eq_nil_iff_forall_not_mem.mpr fun y hy => by
        obtain ⟨st, hst, _⟩ := hacks y hy
        rw [hf] at hst
        cases hst
      simpa [this] using hi.ahead
    | some st =>
      refine chain_append_const (a := st.clientSeqNext) hi.ahead ?_ fun y hy => ?_
      · rw [hi.last st hf]
        rintro _ ⟨⟩
        exact serialLe_refl _
      · obtain ⟨st', hst', rfl⟩ := hacks y hy
        rw [hf, Option.some.injEq] at hst'
        rw [hst']
  · intro st' hst'
    obtain ⟨st, hst, _, hseq, _⟩ := hq.flow st' hst'
    rw [hes, acks_append, hseq]
    rcases List.eq_nil_or_concat (acks key es) with e | ⟨l, y, e⟩
    · simpa [e] using hi.last st hst
    · obtain ⟨st₀, hst₀, hy⟩ := hacks y (by simp [e])
      rw [hst, Option.some.injEq] at hst₀
      rw [e, List.concat_eq_append, ← List.append_assoc, List.getLast?_append_cons, hy, hst₀]
      rfl

/-- A flow that is tracked acknowledges where it stands, not behind what it has
acknowledged before. -/
theorem inSync_send {st : FlowState} (seq : UInt32) (flags : UInt8)
    (hi : Tracked isn stream key s) (hst : s.flows key = some st)
    (hle : ∀ x ∈ (acks key s.log).getLast?, SerialLe x st.clientSeqNext) :
    InSync isn stream key (s.sendToClient .packet key st seq flags []) := by
  have hq : Quiet key s (s.sendToClient .packet key st seq flags []) :=
    quiet_sendToClient _ seq flags [] hi.keyed hst
  have hacks : acks key (s.sendToClient .packet key st seq flags []).log =
      acks key s.log ++ [st.clientSeqNext] := by
    simp [State.sendToClient, acks]
  refine ⟨⟨hq.keyed, fun c g hg => hi.good c g (hq.given c ▸ hg), flow_of_quiet hi hq,
    acked_of_quiet hi hq, ?_⟩, fun u hu => ?_⟩
  · rw [hacks]
    exact chain_append_const hi.ahead hle (by simp)
  · rw [hacks, List.getLast?_concat]
    exact congrArg (fun v => some (FlowState.clientSeqNext v)) (Option.some.inj (hst.symm.trans hu))

/-! ## A SYN -/

theorem seqAfter_nil : seqAfter isn [] = isn + 1 := by simp [seqAfter, size_nil]

theorem acks_of_nil (hi : Tracked isn stream key s)
    (hnil : ∀ c g, s.given key c = some g → g = []) : ∀ y ∈ acks key s.log, y = isn + 1 := by
  intro y hy
  obtain ⟨e, he, hy⟩ := List.mem_filterMap.mp hy
  cases e with
  | removed cause f => cases hy
  | wrote cause f g p =>
    dsimp only at hy
    split at hy
    · cases hy
      obtain ⟨hack, c, g', hg', hpre⟩ := hi.acked cause f g p he ‹_›
      obtain rfl := hnil c g' hg'
      obtain rfl := List.prefix_nil.mp hpre
      rw [hack, seqAfter_nil]
    · cases hy

theorem given_snoc (s : State) (k : FlowKey) (c : ConnId) :
    ({ s with conns := s.conns ++ [{ key := k }] } : State).given k c =
      if c = s.conns.length then some [] else s.given k c := by
  simp only [State.given]
  rcases Nat.lt_trichotomy c s.conns.length with hc | hc | hc
  · rw [List.getElem?_append_left hc, if_neg (Nat.ne_of_lt hc)]
  · subst hc
    simp
  · rw [List.getElem?_append_right (Nat.le_of_lt hc), if_neg (Nat.ne_of_gt hc),
      List.getElem?_eq_none (Nat.le_of_lt hc)]
    cases hd : c - s.conns.length with
    | zero => exact absurd hd (Nat.sub_ne_zero_of_lt hc)
    | succ n => simp

/-- A new connection and its flow, while nothing has been forwarded. -/
theorem tracked_open {st : FlowState} (hi : Tracked isn stream key s)
    (hnil : ∀ c g, s.given key c = some g → g = []) (hc : st.conn = s.conns.length)
    (hseq : st.clientSeqNext = isn + 1) (hfin : st.clientFinSeen = false) :
    Tracked isn stream key
      (({ s with conns := s.conns ++ [{ key := key }] } : State).setFlow key (some st)) := by
  have hgiven : ∀ c, (({ s with conns := s.conns ++ [{ key := key }] } : State).setFlow key
      (some st)).given key c = if c = s.conns.length then some [] else s.given key c :=
    given_snoc s key
  have hempty : ∀ c g, (if c = s.conns.length then some [] else s.given key c) = some g → g = [] := by
    intro c g hg
    split at hg
    · cases hg; rfl
    · exact hnil c g hg
  refine ⟨?_, fun c g hg => ?_, fun u hu g hg => ?_, fun cause f g p he hp => ?_, hi.ahead⟩
  · have hk : Keyed { s with conns := s.conns ++ [{ key := key }] } := by
      intro k u hu
      obtain ⟨conn, hconn, hkey⟩ := hi.keyed k u hu
      exact ⟨conn, by rw [List.getElem?_append_left (List.getElem?_eq_some_iff.mp hconn).1, hconn],
        hkey⟩
    refine keyed_setFlow hk fun u hu => ?_
    cases hu
    exact ⟨{ key := key }, by simp [hc], rfl⟩
  · rw [hgiven] at hg
    rw [hempty c g hg]
    exact goodGiven_nil stream
  · rw [flows_setFlow_self, Option.some.injEq] at hu
    subst hu
    rw [hgiven] at hg
    rw [hempty _ g hg, hseq, seqAfter_nil, hfin]
    simp
  · obtain ⟨hack, c, g', hg', hpre⟩ := hi.acked cause f g p he hp
    have hlt : c < s.conns.length := by
      obtain ⟨conn, hconn, _⟩ := given_eq_some.mp hg'
      exact (List.getElem?_eq_some_iff.mp hconn).1
    exact ⟨hack, c, g', by rw [hgiven, if_neg (Nat.ne_of_lt hlt), hg'], hpre⟩

theorem inSync_openFlow {serverISN : UInt32} (hi : InSync isn stream key s)
    (hnil : ∀ conn ∈ s.conns, conn.key = key → conn.given = []) :
    InSync isn stream key (s.openFlow key isn serverISN) := by
  have h₁ : Quiet key s (s.cancelFlow key) := quiet_cancelFlow key hi.keyed
  have hnil' : ∀ c g, s.given key c = some g → g = [] := by
    intro c g hg
    obtain ⟨conn, hc, hkey, rfl⟩ := given_eq_some.mp hg
    exact hnil conn (List.mem_of_getElem? hc) hkey
  have hi₁ := (inSync_quiet hi h₁).toTracked
  have hnil₁ : ∀ c g, (s.cancelFlow key).given key c = some g → g = [] := fun c g hg =>
    hnil' c g (h₁.given c ▸ hg)
  refine inSync_send serverISN flagsSYNACK (tracked_open hi₁ hnil₁ rfl rfl rfl)
    (flows_setFlow_self key _) fun x hx => ?_
  rw [acks_of_nil hi₁ hnil₁ x (List.mem_of_getLast? hx)]
  exact serialLe_refl _

/-! ## A segment -/

/-- What the connections of the key have been given, after one of them was given more. -/
theorem given_connSend {c i : ConnId} {outs : List Given} :
    (s.connSend c outs).given key i =
      (s.given key i).map fun g => if c = i then g ++ outs else g := by
  simp only [State.given, State.connSend, getElem?_modifyConn]
  cases s.conns[i]? with
  | none => rfl
  | some conn =>
    by_cases hk : conn.key = key <;> by_cases hc : c = i <;> simp [Option.filter_some, hk, hc]

/-- The connection of the flow is given more, and the flow is advanced by as much. -/
theorem tracked_give {st st' : FlowState} {g outs : List Given} (hi : Tracked isn stream key s)
    (hst : s.flows key = some st) (hg : s.given key st.conn = some g)
    (hc : st'.conn = st.conn) (hgood : GoodGiven stream (g ++ outs))
    (hseq : st'.clientSeqNext = seqAfter isn (g ++ outs))
    (hfin : st'.clientFinSeen = true ↔ .eof ∈ g ++ outs) :
    Tracked isn stream key ((s.connSend st.conn outs).setFlow key (some st')) := by
  have hgiven : ∀ c, ((s.connSend st.conn outs).setFlow key (some st')).given key c =
      (s.given key c).map fun g => if st.conn = c then g ++ outs else g := fun c => given_connSend
  have hself : ((s.connSend st.conn outs).setFlow key (some st')).given key st.conn =
      some (g ++ outs) := by simp [hgiven, hg]
  refine ⟨?_, fun c h hh => ?_, fun u hu h hh => ?_, fun cause f h p he hp => ?_, hi.ahead⟩
  · have hk : Keyed (s.connSend st.conn outs) := keyed_modifyConn hi.keyed fun _ => rfl
    refine keyed_setFlow hk fun u hu => ?_
    cases hu
    obtain ⟨conn, hconn, hkey⟩ := hi.keyed key st hst
    exact ⟨{ conn with given := conn.given ++ outs },
      by rw [hc]; exact getElem?_connSend_self hconn, hkey⟩
  · by_cases he : st.conn = c
    · subst he
      rw [hself] at hh
      cases hh
      exact hgood
    · rw [hgiven] at hh
      simp only [he, ↓reduceIte, Option.map_id'] at hh
      exact hi.good c h hh
  · rw [flows_setFlow_self, Option.some.injEq] at hu
    subst hu
    rw [hc, hself] at hh
    cases hh
    exact ⟨hseq, hfin⟩
  · obtain ⟨hack, c, g', hg', hpre⟩ := hi.acked cause f h p he hp
    refine ⟨hack, c, _, by rw [hgiven, hg']; rfl, ?_⟩
    dsimp only
    split
    · exact hpre.trans (List.prefix_append _ _)
    · exact hpre

/-- A segment that gives something to the connection, and acknowledges it. -/
theorem inSync_segment {st : FlowState} {tcp : TCPHeader} {g : List Given}
    (hi : InSync isn stream key s) (hst : s.flows key = some st)
    (hg : s.given key st.conn = some g) (hgood : GoodGiven stream (g ++ st.outputs tcp))
    (hseq : (st.advance tcp s.now).clientSeqNext = seqAfter isn (g ++ st.outputs tcp))
    (hfin : (st.advance tcp s.now).clientFinSeen = true ↔ .eof ∈ g ++ st.outputs tcp)
    (hle : SerialLe st.clientSeqNext (st.advance tcp s.now).clientSeqNext)
    (hans : tcp.payload ≠ [] ∨ tcp.isFIN = true) :
    InSync isn stream key (s.handleSegment key tcp st) := by
  have ht := tracked_give hi.toTracked hst hg (conn_advance st tcp s.now) hgood hseq hfin
  unfold State.handleSegment
  dsimp only
  rw [if_pos hans]
  refine inSync_send _ flagsACK ht (flows_setFlow_self key _) fun x hx => ?_
  have hx : x ∈ (acks key s.log).getLast? := hx
  rw [hi.last st hst] at hx
  cases hx
  exact hle

/-- A segment that gives nothing to the connection. -/
theorem quiet_handleSegment {st : FlowState} {tcp : TCPHeader} (hk : Keyed s)
    (hst : s.flows key = some st) (hp : tcp.payload = [])
    (hf : tcp.isFIN = true → st.clientFinSeen = true) :
    Quiet key s (s.handleSegment key tcp st) := by
  have hfin : (tcp.isFIN && !st.clientFinSeen) = false := by
    cases h : tcp.isFIN with
    | false => rfl
    | true => simp [hf h]
  have hout : st.outputs tcp = [] := by simp [FlowState.outputs, hp, hfin]
  have hadv : st.SameClient (st.advance tcp s.now) := by
    simp [FlowState.advance, FlowState.SameClient, hp, hfin]
  have h₁ : Quiet key s (s.connSend st.conn (st.outputs tcp)) :=
    quiet_modifyConn hk (fun _ => rfl) fun _ _ _ => by simp [hout]
  have h₂ := h₁.trans (quiet_setFlow h₁.keyed hst hadv)
  unfold State.handleSegment
  dsimp only
  split
  · exact h₂.trans (quiet_sendToClient _ _ _ _ h₂.keyed (flows_setFlow_self key _))
  · exact h₂

/-- A segment with payload, at the first byte not yet forwarded. -/
theorem inSync_data {st : FlowState} {tcp : TCPHeader} {g : List Given}
    (hi : InSync isn stream key s) (hst : s.flows key = some st)
    (hg : s.given key st.conn = some g) (hp : tcp.payload ≠ []) (hopen : st.clientFinSeen = false)
    (hnf : tcp.isFIN = false) (hs : Segment isn stream (bytesOf g).length tcp) :
    InSync isn stream key (s.handleSegment key tcp st) := by
  obtain ⟨hseq, hpre, hshort, _⟩ := hs
  obtain ⟨hnext, hfin⟩ := hi.flow st hst g hg
  have heof : Given.eof ∉ g := fun h => by simp [hfin.mpr h] at hopen
  have hout : st.outputs tcp = [.data tcp.payload] := by simp [FlowState.outputs, hp, hnf]
  have hstep : (st.advance tcp s.now).clientSeqNext =
      st.clientSeqNext + UInt32.ofNat tcp.payload.length := by
    rw [hnext, seqAfter, size_of_open heof, ← hseq]
    simp [FlowState.advance, hp, hnf]
  refine inSync_segment hi hst hg ?_ ?_ ?_ ?_ (.inl hp)
  · rw [hout]
    exact goodGiven_data (hi.good _ g hg) heof hpre
  · rw [hout, hstep, hnext, seqAfter_of_size size_data]
  · simp [hout, FlowState.advance, hp, hnf, hopen, heof]
  · rw [hstep]
    exact serialLe_add (by simp only [maxPayload] at hshort; omega)

/-- The first FIN, when all bytes have been forwarded. -/
theorem inSync_fin {st : FlowState} {tcp : TCPHeader} {g : List Given}
    (hi : InSync isn stream key s) (hst : s.flows key = some st)
    (hg : s.given key st.conn = some g) (hp : tcp.payload = []) (hopen : st.clientFinSeen = false)
    (hf : tcp.isFIN = true) (hl : (bytesOf g).length = stream.length) :
    InSync isn stream key (s.handleSegment key tcp st) := by
  obtain ⟨hnext, hfin⟩ := hi.flow st hst g hg
  have heof : Given.eof ∉ g := fun h => by simp [hfin.mpr h] at hopen
  have hout : st.outputs tcp = [.eof] := by simp [FlowState.outputs, hp, hf, hopen]
  have hstep : (st.advance tcp s.now).clientSeqNext = st.clientSeqNext + UInt32.ofNat 1 := by
    simp [FlowState.advance, hp, hf, hopen]
  refine inSync_segment hi hst hg ?_ ?_ ?_ ?_ (.inr hf)
  · rw [hout]
    exact goodGiven_eof (hi.good _ g hg) heof hl
  · rw [hout, hstep, hnext, seqAfter_of_size (size_eof heof)]
  · simp [hout, FlowState.advance, hp, hf, hopen]
  · rw [hstep]
    exact serialLe_add (by omega)

/-! ## Runs -/

/-- Every packet of the key that is in order keeps it in sync. -/
theorem inSync_packet {tcp : TCPHeader} {serverISN : UInt32} (hi : InSync isn stream key s)
    (hfrom : FromClient isn stream key (.packet key tcp serverISN))
    (hc : InOrder isn stream key s (.packet key tcp serverISN)) :
    InSync isn stream key (s.handlePacket key tcp serverISN) := by
  unfold State.handlePacket
  split
  · exact inSync_quiet hi (quiet_closeFlow _ _ hi.keyed)
  · rename_i hrst
    have hrst : tcp.isRST = false := by simpa using hrst
    have hfrom := hfrom rfl hrst
    have hc := hc rfl hrst
    cases hsyn : tcp.opens with
    | true =>
      rw [if_pos hsyn] at hfrom hc
      rw [TCPHeader.opens] at hsyn
      rw [if_pos hsyn, hfrom]
      exact inSync_openFlow hi hc
    | false =>
      rw [if_neg (by simp [hsyn])] at hc
      rw [TCPHeader.opens] at hsyn
      rw [if_neg (by simp [hsyn])]
      split
      · exact hi
      · rename_i st hst
        have hg := given_of_keyed hi.keyed hst
        obtain ⟨hdata, hfin⟩ := hc st hst
        by_cases hp : tcp.payload = []
        · by_cases hf : tcp.isFIN = true ∧ st.clientFinSeen = false
          · obtain ⟨hf, hopen⟩ := hf
            have hl := (hfin hp hf).resolve_left (by simp [hopen])
            exact inSync_fin hi hst hg hp hopen hf hl
          · refine inSync_quiet hi (quiet_handleSegment hi.keyed hst hp fun h => ?_)
            simpa [h] using hf
        · obtain ⟨hopen, hnf, hs⟩ := hdata hp
          exact inSync_data hi hst hg hp hopen hnf hs

theorem inSync_step {a : Action} (hi : InSync isn stream key s)
    (hc : FromClient isn stream key a ∧ InOrder isn stream key s a) (h : step s a = some s') :
    InSync isn stream key s' := by
  by_cases hp : ∃ tcp n, a = .packet key tcp n
  · obtain ⟨tcp, n, rfl⟩ := hp
    cases h
    exact inSync_packet hi hc.1 hc.2
  · exact inSync_quiet hi (quiet_step hi.keyed (fun tcp n e => hp ⟨tcp, n, e⟩) h)

theorem streamIntact_of_inSync (hi : InSync isn stream key s) : StreamIntact isn stream key s where
  forwarded conn hm hkey := by
    obtain ⟨c, hc⟩ := List.getElem?_of_mem hm
    exact hi.good c _ (given_eq_some.mpr ⟨conn, hc, hkey, rfl⟩)
  acked cause f g p he hp := (hi.acked cause f g p he hp).1
  ahead := hi.ahead

/-- **Streams go through intact.** For the segments of any client stream, in any order: the
connection is given a prefix of the stream and then its end, and the acknowledgements name
what it has been given and never go back, in every run whose segments come in order. -/
theorem stream_intact_of_run {as : List Action}
    (hfrom : ∀ a ∈ as, FromClient isn stream key a)
    (hm : Meets step (InOrder isn stream key) {} as) (hr : run step {} as = some s) :
    StreamIntact isn stream key s := by
  have hm' : Meets step (fun s a => FromClient isn stream key a ∧ InOrder isn stream key s a)
      {} as := meets_and_of_forall hfrom hm
  exact streamIntact_of_inSync
    (invariant_of_meets (fun _ _ _ hi hc h => inSync_step hi hc h) inSync_init hm' hr)

/-! ## Two runs -/

def flowA : FlowKey := ⟨ascii "10.99.0.1", 50000, ascii "192.0.2.7", 80⟩

def streamA : Bytes := ascii "GET /"

def synA : TCPHeader := { seq := 4294967290, isSYN := true, isACK := false }

/-- The bytes of the stream from the `off`-th on, in one segment. -/
def segmentA (off len : Nat) : TCPHeader :=
  { seq := synA.seq + 1 + UInt32.ofNat off, payload := (streamA.drop off).take len }

def finA : TCPHeader :=
  { seq := synA.seq + 1 + UInt32.ofNat streamA.length, isFIN := true }

/-- The second segment is retransmitted. -/
def retransmitted : List Action :=
  [.packet flowA synA 1, .packet flowA (segmentA 0 3) 0, .packet flowA (segmentA 3 2) 0,
    .packet flowA (segmentA 3 2) 0]

theorem fromClient_segmentA (n : UInt32) {off len : Nat} (h : len ≤ maxPayload) :
    FromClient synA.seq streamA flowA (.packet flowA (segmentA off len) n) := by
  intro _ _
  rw [if_neg (by simp [TCPHeader.opens, segmentA])]
  refine ⟨off, rfl, List.take_prefix _ _, ?_, by simp [segmentA]⟩
  simp only [segmentA, List.length_take]
  omega

/-- The relay gives the retransmitted bytes to the connection again. -/
theorem retransmission_duplicated :
    (∀ a ∈ retransmitted, FromClient synA.seq streamA flowA a) ∧
    ∃ s, run step {} retransmitted = some s ∧ ¬ StreamIntact synA.seq streamA flowA s := by
  constructor
  · intro a ha
    simp only [retransmitted, List.mem_cons, List.not_mem_nil, or_false] at ha
    rcases ha with rfl | rfl | rfl | rfl
    · exact fun _ _ => rfl
    · exact fromClient_segmentA 0 (by decide)
    · exact fromClient_segmentA 0 (by decide)
    · exact fromClient_segmentA 0 (by decide)
  · have h : ((run step {} retransmitted).map fun s => s.conns.map fun c => (c.key, bytesOf c.given)) =
        some [(flowA, ascii "GET / /")] := by decide +kernel
    obtain ⟨s, hs, hc⟩ := Option.map_eq_some_iff.mp h
    refine ⟨s, hs, fun hi => ?_⟩
    obtain ⟨conn, hm, he⟩ := List.mem_map.mp (hc ▸ List.mem_singleton_self _)
    obtain ⟨hkey, hb⟩ := Prod.mk.inj he
    have hpre := (hi.forwarded conn hm hkey).1
    rw [hb] at hpre
    exact absurd hpre (by decide)

/-- The stream in two segments and its FIN, across the end of the sequence numbers. -/
theorem stream_intact_wrapped :
    ∃ s, run step {} [.packet flowA synA 1, .packet flowA (segmentA 0 3) 0,
        .packet flowA (segmentA 3 2) 0, .packet flowA finA 0] = some s ∧
      acks flowA s.log = [4294967291, 4294967294, 0, 1] ∧
      StreamIntact synA.seq streamA flowA s := by
  have h : ((run step {} [.packet flowA synA 1, .packet flowA (segmentA 0 3) 0,
      .packet flowA (segmentA 3 2) 0, .packet flowA finA 0]).map fun s => acks flowA s.log) =
        some [4294967291, 4294967294, 0, 1] := by decide +kernel
  obtain ⟨s, hs, ha⟩ := Option.map_eq_some_iff.mp h
  refine ⟨s, hs, ha, stream_intact_of_run (fun a ha => ?_) (by decide +kernel) hs⟩
  simp only [List.mem_cons, List.not_mem_nil, or_false] at ha
  rcases ha with rfl | rfl | rfl | rfl
  · exact fun _ _ => rfl
  · exact fromClient_segmentA 0 (by decide)
  · exact fromClient_segmentA 0 (by decide)
  · intro _ _
    exact ⟨streamA.length, rfl, List.nil_prefix, by decide, fun _ => rfl⟩

end TrafficMonitor.TcpRelay
