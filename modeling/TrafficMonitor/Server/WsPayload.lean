import TrafficMonitor.Server.WsFraming

/-!
# The payload stream of a WebSocket client

A run is a sequence of calls of `recv` and `readExact` on one connection, with any sizes.
`Faithful` says that the calls return the data of the client in order, and report that the
connection is gone only when its ending has been met. `Clear` says what the calls may read:
it follows the items on the connection and the sizes, not the code.

Proved here:

* `exact_readExact`, `called`: what one call does with the items it reads;
* `faithful_iff`: a run is faithful exactly if it is clear;
* `empty_frame_disconnects`: an empty data frame is reported as a lost connection.
-/

namespace TrafficMonitor.WsServer

open Bytes Tls Ws

/-! ## Calls -/

inductive Call
  | recv (maxLen : Int)
  | readExact (n : Nat)
  deriving DecidableEq, Repr

/-- The bytes a call returns, or nothing if it reports that the connection is gone: `recv` with
-1, `readExact` with `false`. -/
def WsServerStream.call (s : WsServerStream) : Call → Option Bytes × WsServerStream
  | .recv maxLen =>
    let r := s.recv maxLen
    (if r.1 < 0 then none else some r.2.1, r.2.2)
  | .readExact n =>
    let r := s.readExact n
    (if r.1 then some r.2.1 else none, r.2.2)

/-- The read timeouts still to come. -/
def WsServerStream.timeouts (s : WsServerStream) : Nat := (symbols s.tls).count .timeout

/-- What a call may return when `data` has not been handed out yet: the bytes that come next, as
many as `readExact` asks for, or some of those that `recv` asks for; none if it asks for none or
if a read timed out. -/
def Call.Returns (c : Call) (data out : Bytes) (timedOut : Prop) : Prop :=
  out <+: data ∧
    match c with
    | .recv maxLen => out.length ≤ maxLen.toNat ∧ (out = [] → maxLen ≤ 0 ∨ timedOut)
    | .readExact n => out.length = n

/-- The bytes without which a call may report that the connection is gone. -/
def Call.least : Call → Nat
  | .recv _ => 1
  | .readExact n => n

/-- Up to the first report that the connection is gone, the calls return the data in order, and
that report comes when the data that is left is not enough and the ending has been met. -/
def Faithful (ending : Nat) : Bytes → WsServerStream → List Call → Prop
  | _, _, [] => True
  | data, s, c :: cs =>
    match s.call c with
    | (some out, s') =>
      c.Returns data out (s'.timeouts < s.timeouts) ∧ Faithful ending (data.drop out.length) s' cs
    | (none, s') => data.length < c.least ∧ s'.unread < ending

/-! ## What the calls read -/

/-- The items that `readExact` reads for `k` bytes. -/
def exactReads : Nat → List Item → List Item
  | _, [] => []
  | k, i :: items => if k = 0 then [] else i :: exactReads (k - i.payload.length) items

/-- The items that a call reads when the buffer holds `pending` bytes. -/
def Call.reads (c : Call) (pending : Nat) (items : List Item) : List Item :=
  match c with
  | .recv maxLen => if maxLen ≤ 0 ∨ 0 < pending then [] else refillReads items
  | .readExact n => exactReads (n - pending) items

/-- The items that a call can read: data frames that are not empty, control frames within the
limit, and for `recv` a timeout. -/
def Call.Accepts (c : Call) (i : Item) : Prop :=
  i.Fits ∧
    match c with
    | .recv _ => True
    | .readExact _ => i ≠ .timeout

/-- How many of the bytes that are there a call takes. -/
def Call.takes (c : Call) (avail : Nat) : Nat :=
  match c with
  | .recv maxLen => min maxLen.toNat avail
  | .readExact n => min n avail

/-- Each call accepts the items it reads. -/
def Clear : Nat → List Item → List Call → Prop
  | _, _, [] => True
  | pending, items, c :: cs =>
    let read := c.reads pending items
    let avail := pending + (payloads read).length
    (∀ i ∈ read, c.Accepts i) ∧ Clear (avail - c.takes avail) (items.drop read.length) cs

theorem refillReads_append_drop (items : List Item) :
    refillReads items ++ items.drop (refillReads items).length = items := by
  induction items with
  | nil => rfl
  | cons i items ih =>
    rw [refillReads]
    split
    · rw [List.cons_append, List.length_cons, List.drop_succ_cons, ih]
    · rfl

theorem exactReads_append_drop (k : Nat) (items : List Item) :
    exactReads k items ++ items.drop (exactReads k items).length = items := by
  induction items generalizing k with
  | nil => rfl
  | cons i items ih =>
    rw [exactReads]
    split
    · rfl
    · rw [List.cons_append, List.length_cons, List.drop_succ_cons, ih]

@[simp] theorem exactReads_zero (items : List Item) : exactReads 0 items = [] := by
  cases items <;> rfl

/-- What is read for `k` bytes is a refill, and what is read for the bytes it leaves to wait for. -/
theorem exactReads_eq {k : Nat} (hk : 0 < k) (items : List Item) :
    exactReads k items = refillReads items ++
      exactReads (k - (payloads (refillReads items)).length)
        (items.drop (refillReads items).length) := by
  induction items with
  | nil => rfl
  | cons i items ih =>
    rw [exactReads, if_neg (Nat.ne_of_gt hk), refillReads]
    split
    · rename_i hi
      have hpay : i.payload = [] := by cases i <;> first | rfl | cases hi
      simp only [hpay, List.length_nil, Nat.sub_zero, List.cons_append, payloads_cons,
        List.nil_append, List.length_cons, List.drop_succ_cons]
      rw [ih]
    · simp [payloads]

/-! ## `readExact` -/

/-- The end of a call of `readExact` in which `n` bytes were to be read, `data` being the bytes in
the buffer and in the items that it read. -/
inductive Exact (tail : List Symbol) (n : Nat) (data : Bytes) (read left : List Item) :
    Bool × Bytes × WsServerStream → Prop
  | done {s' : WsServerStream} (accepted : ∀ i ∈ read, (Call.readExact n).Accepts i)
      (enough : n ≤ data.length) (pending : s'.pending = data.drop n)
      (tls : symbols s'.tls = wire left ++ tail) : Exact tail n data read left (true, data.take n, s')
  | ended {s' : WsServerStream} {out : Bytes}
      (accepted : ∀ i ∈ read, (Call.readExact n).Accepts i) (short : data.length < n)
      (left_eq : left = []) (unread : s'.unread < tail.length) :
      Exact tail n data read left (false, out, s')
  | bad {s' : WsServerStream} {out : Bytes} (i : Item) (mem : i ∈ read)
      (bad : ¬ (Call.readExact n).Accepts i) (unread : tail.length ≤ s'.unread) :
      Exact tail n data read left (false, out, s')

variable {s : WsServerStream} {items : List Item} {e : Ending} {rest : List Symbol}

theorem accepts_exact_iff {n : Nat} {read : List Item} :
    (∀ i ∈ read, (Call.readExact n).Accepts i) ↔ (∀ i ∈ read, i.Fits) ∧ .timeout ∉ read := by
  constructor
  · exact fun h => ⟨fun i hi => (h i hi).1, fun hi => (h _ hi).2 rfl⟩
  · exact fun h i hi => ⟨h.1 i hi, fun he => h.2 (he ▸ hi)⟩

/-- Bytes that are copied in front. -/
theorem Exact.copy {tail : List Symbol} {n k : Nat} {data : Bytes} {read left : List Item}
    {r : Bool × Bytes × WsServerStream} (hk : k ≤ data.length) (hkn : k ≤ n)
    (h : Exact tail (n - k) (data.drop k) read left r) :
    Exact tail n data read left (r.1, data.take k ++ r.2.1, r.2.2) := by
  have hlen : (data.drop k).length = data.length - k := List.length_drop
  cases h with
  | done accepted enough pending tls =>
    have htake : data.take k ++ (data.drop k).take (n - k) = data.take n := by
      conv_rhs => rw [← Nat.add_sub_cancel' hkn, List.take_add]
    simp only [htake]
    refine .done (accepts_exact_iff.mpr (accepts_exact_iff.mp accepted)) (by omega) ?_ tls
    rw [pending, List.drop_drop, Nat.add_sub_cancel' hkn]
  | ended accepted short left_eq unread =>
    exact .ended (accepts_exact_iff.mpr (accepts_exact_iff.mp accepted)) (by omega) left_eq unread
  | bad i mem bad unread => exact .bad i mem bad unread

/-- Items that were read before. -/
theorem Exact.append {tail : List Symbol} {n : Nat} {data : Bytes} {before read left : List Item}
    {r : Bool × Bytes × WsServerStream} (hb : ∀ i ∈ before, (Call.readExact n).Accepts i)
    (h : Exact tail n data read left r) : Exact tail n data (before ++ read) left r := by
  cases h with
  | done accepted enough pending tls =>
    exact .done (List.forall_mem_append.mpr ⟨hb, accepted⟩) enough pending tls
  | ended accepted short left_eq unread =>
    exact .ended (List.forall_mem_append.mpr ⟨hb, accepted⟩) short left_eq unread
  | bad i mem bad unread => exact .bad i (List.mem_append_right _ mem) bad unread

/-- What `readExact` reads and finds when it is called with `n`. -/
private abbrev Loops (rounds : Nat) (tail : List Symbol) : Prop :=
  ∀ (n : Nat) (s : WsServerStream) (items : List Item), n ≤ rounds →
    symbols s.tls = wire items ++ tail →
    Exact tail n (s.pending ++ payloads (exactReads (n - s.pending.length) items))
      (exactReads (n - s.pending.length) items)
      (items.drop (exactReads (n - s.pending.length) items).length)
      (WsServerStream.readLoop rounds n s)

theorem WsServerStream.length_pending (s : WsServerStream) :
    s.pending.length = s.buf.length - s.bufPos := List.length_drop

/-- A round whose buffer is filled. -/
private theorem exact_round {rounds n : Nat} {tail : List Symbol} (ih : Loops rounds tail)
    (hn : n ≤ rounds) (hp : s.pending ≠ []) (h : symbols s.tls = wire items ++ tail) :
    let take := min (s.buf.length - s.bufPos) (n + 1)
    let next := WsServerStream.readLoop rounds (n + 1 - take) { s with bufPos := s.bufPos + take }
    Exact tail (n + 1) (s.pending ++ payloads (exactReads (n + 1 - s.pending.length) items))
      (exactReads (n + 1 - s.pending.length) items)
      (items.drop (exactReads (n + 1 - s.pending.length) items).length)
      (next.1, s.pending.take take ++ next.2.1, next.2.2) := by
  intro take next
  have hpos := List.length_pos_iff.mpr hp
  have hlen := s.length_pending
  have hpend : ({ s with bufPos := s.bufPos + take } : WsServerStream).pending =
      s.pending.drop take := List.drop_drop.symm
  have htake : take ≤ s.pending.length := by omega
  have hloop := ih (n + 1 - take) { s with bufPos := s.bufPos + take } items (by omega) h
  have hk : n + 1 - take - (s.pending.drop take).length = n + 1 - s.pending.length := by
    rw [List.length_drop]
    omega
  rw [hpend, hk, ← List.drop_append_of_le_length htake] at hloop
  have hcopy := hloop.copy (n := n + 1) (k := take) (by rw [List.length_append]; omega) (by omega)
  rwa [List.take_append_of_le_length htake] at hcopy

/-- **The loop of `readExact`.** -/
private theorem exact_readLoop (rounds : Nat) : Loops rounds (e.symbols ++ rest) := by
  induction rounds with
  | zero =>
    intro n s items hn h
    obtain rfl := Nat.le_zero.mp hn
    have hd : Exact (e.symbols ++ rest) 0 s.pending [] items (true, s.pending.take 0, s) :=
      .done (by simp) (Nat.zero_le _) rfl h
    simpa [WsServerStream.readLoop, payloads] using hd
  | succ rounds ih =>
    intro n s items hn h
    cases n with
    | zero =>
      have hd : Exact (e.symbols ++ rest) 0 s.pending [] items (true, s.pending.take 0, s) :=
        .done (by simp) (Nat.zero_le _) rfl h
      simpa [WsServerStream.readLoop, payloads] using hd
    | succ n =>
      rw [WsServerStream.readLoop]
      by_cases hp : s.pending = []
      · -- the buffer is filled first
        rw [if_pos (WsServerStream.pending_eq_nil.mp hp), hp, List.nil_append, List.length_nil,
          Nat.sub_zero, exactReads_eq (k := n + 1) (Nat.succ_pos n)]
        have hr := refilled_fillBuf hp h
        generalize s.fillBuf = r at hr
        cases hr with
        | data fits waited ne pending tls =>
          have hround := exact_round ih (Nat.le_of_succ_le_succ hn) (pending ▸ ne) tls
          rw [payloads_append, List.length_append, ← List.drop_drop, ← pending]
          exact (hround.append (accepts_exact_iff.mpr ⟨fits, waited⟩))
        | timeout fits waited payload timedOut pending tls =>
          refine .bad .timeout (List.mem_append_left _ waited) (fun hacc => hacc.2 rfl) ?_
          rw [WsServerStream.unread, tls]
          exact (List.suffix_append (wire _) _).length_le
        | ended fits waited payload left_eq timedOut unread =>
          rw [left_eq]
          refine .ended ?_ ?_ ?_ unread
          · rw [exactReads, List.append_nil]
            exact accepts_exact_iff.mpr ⟨fits, waited⟩
          · rw [exactReads, List.append_nil, payload]
            exact Nat.succ_pos n
          · rw [exactReads, List.append_nil, left_eq]
        | bad i mem bad timedOut unread =>
          exact .bad i (List.mem_append_left _ mem) (fun hacc => bad hacc.1) unread
      · rw [if_neg (mt WsServerStream.pending_eq_nil.mpr hp)]
        exact exact_round ih (Nat.le_of_succ_le_succ hn) hp h

theorem exact_readExact (n : Nat) (h : symbols s.tls = wire items ++ (e.symbols ++ rest)) :
    Exact (e.symbols ++ rest) n (s.pending ++ payloads (exactReads (n - s.pending.length) items))
      (exactReads (n - s.pending.length) items)
      (items.drop (exactReads (n - s.pending.length) items).length) (s.readExact n) :=
  exact_readLoop n n s items (Nat.le_refl n) h

/-! ## One call -/

/-- The end of a call, `data` being the bytes in the buffer and in the items that it read. -/
inductive Called (tail : List Symbol) (s : WsServerStream) (c : Call) (data : Bytes)
    (read left : List Item) : Option Bytes × WsServerStream → Prop
  | returned {s' : WsServerStream} (accepted : ∀ i ∈ read, c.Accepts i)
      (returns : c.Returns data (data.take (c.takes data.length)) (s'.timeouts < s.timeouts))
      (pending : s'.pending = data.drop (c.takes data.length))
      (tls : symbols s'.tls = wire left ++ tail) :
      Called tail s c data read left (some (data.take (c.takes data.length)), s')
  | ended {s' : WsServerStream} (accepted : ∀ i ∈ read, c.Accepts i)
      (short : data.length < c.least) (left_eq : left = []) (unread : s'.unread < tail.length) :
      Called tail s c data read left (none, s')
  | bad {s' : WsServerStream} (i : Item) (mem : i ∈ read) (bad : ¬ c.Accepts i)
      (unread : tail.length ≤ s'.unread) : Called tail s c data read left (none, s')

theorem called_readExact (n : Nat) (h : symbols s.tls = wire items ++ (e.symbols ++ rest)) :
    Called (e.symbols ++ rest) s (.readExact n)
      (s.pending ++ payloads ((Call.readExact n).reads s.pending.length items))
      ((Call.readExact n).reads s.pending.length items)
      (items.drop ((Call.readExact n).reads s.pending.length items).length)
      (s.call (.readExact n)) := by
  have hr := exact_readExact n h
  simp only [WsServerStream.call, Call.reads] at hr ⊢
  generalize s.readExact n = r at hr
  cases hr with
  | done accepted enough pending tls =>
    have htakes : (Call.readExact n).takes
        (s.pending ++ payloads (exactReads (n - s.pending.length) items)).length = n :=
      Nat.min_eq_left enough
    have hret := Called.returned (s := s) (c := .readExact n) accepted
      ⟨List.take_prefix .., by rw [htakes, List.length_take, Nat.min_eq_left enough]⟩
      (by rw [htakes]; exact pending) tls
    rwa [htakes] at hret
  | ended accepted short left_eq unread => exact .ended accepted short left_eq unread
  | bad i mem bad unread => exact .bad i mem bad unread

theorem accepts_recv_iff {maxLen : Int} {read : List Item} :
    (∀ i ∈ read, (Call.recv maxLen).Accepts i) ↔ ∀ i ∈ read, i.Fits :=
  ⟨fun h i hi => (h i hi).1, fun h i hi => ⟨h i hi, trivial⟩⟩

/-- `recv` when there are bytes for it in the buffer, which held none of them before if they come
from the items in `read`. -/
private theorem called_recv_copy {tail : List Symbol} {maxLen : Int} {s' : WsServerStream}
    {data : Bytes} {read left : List Item} (hm : 0 < maxLen) (hne : s'.pending ≠ [])
    (hdata : s'.pending = data) (hfit : ∀ i ∈ read, i.Fits)
    (tls : symbols s'.tls = wire left ++ tail) :
    let take := min maxLen.toNat (s'.buf.length - s'.bufPos)
    Called tail s (.recv maxLen) data read left
      (if (take : Int) < 0 then none else some (s'.pending.take take),
        { s' with bufPos := s'.bufPos + take }) := by
  intro take
  subst hdata
  have hpos := List.length_pos_iff.mpr hne
  have htakes : take = (Call.recv maxLen).takes s'.pending.length := by
    rw [s'.length_pending]
    rfl
  rw [if_neg (by omega), htakes]
  refine .returned (accepts_recv_iff.mpr hfit) ⟨List.take_prefix .., ?_, ?_⟩ ?_ tls
  · rw [List.length_take]
    exact Nat.le_trans (Nat.min_le_left ..) (Nat.min_le_left ..)
  · intro hnil
    have hlen := congrArg List.length hnil
    rw [List.length_take, List.length_nil] at hlen
    simp only [Call.takes] at hlen
    omega
  · exact List.drop_drop.symm

/-- A refill that waits leaves a timeout less on the connection. -/
private theorem timeouts_lt_of_waited {tail : List Symbol} {s' : WsServerStream}
    (waited : .timeout ∈ refillReads items) (h : symbols s.tls = wire items ++ tail)
    (tls : symbols s'.tls = wire (items.drop (refillReads items).length) ++ tail) :
    s'.timeouts < s.timeouts := by
  have hread : 0 < (wire (refillReads items)).count .timeout := by
    apply List.count_pos_iff.mpr
    exact List.mem_flatMap.mpr ⟨.timeout, waited, List.mem_singleton_self _⟩
  have hw : wire items = wire (refillReads items) ++
      wire (items.drop (refillReads items).length) := by
    rw [← wire_append, refillReads_append_drop items]
  rw [WsServerStream.timeouts, WsServerStream.timeouts, tls, h, hw]
  simp only [List.count_append]
  omega

theorem called_recv (maxLen : Int) (h : symbols s.tls = wire items ++ (e.symbols ++ rest)) :
    Called (e.symbols ++ rest) s (.recv maxLen)
      (s.pending ++ payloads ((Call.recv maxLen).reads s.pending.length items))
      ((Call.recv maxLen).reads s.pending.length items)
      (items.drop ((Call.recv maxLen).reads s.pending.length items).length)
      (s.call (.recv maxLen)) := by
  simp only [WsServerStream.call, WsServerStream.recv, Call.reads]
  by_cases hm : maxLen ≤ 0
  · -- nothing is asked for
    have htakes : ∀ k, (Call.recv maxLen).takes k = 0 := by
      intro k
      simp only [Call.takes]
      omega
    rw [if_pos hm, if_pos (.inl hm)]
    have hret : Called (e.symbols ++ rest) s (.recv maxLen) (s.pending ++ payloads []) [] items
        (some ((s.pending ++ payloads []).take
          ((Call.recv maxLen).takes (s.pending ++ payloads []).length)), s) := by
      refine .returned (by simp) ⟨List.take_prefix .., ?_, fun _ => .inl hm⟩ ?_ h
      · simp [htakes]
      · simp [htakes, payloads]
    simpa [htakes] using hret
  rw [if_neg hm]
  have hpos : 0 < maxLen := by omega
  by_cases hp : s.pending = []
  · have hreads : ¬ (maxLen ≤ 0 ∨ 0 < s.pending.length) := by simp [hm, hp]
    rw [if_neg hreads, if_pos (WsServerStream.pending_eq_nil.mp hp), hp, List.nil_append]
    have hr := refilled_fillBuf hp h
    generalize s.fillBuf = r at hr
    cases hr with
    | data fits waited ne pending tls =>
      have hc := called_recv_copy (s := s) hpos (pending ▸ ne) pending fits tls
      simpa using hc
    | timeout fits waited payload timedOut pending tls =>
      rename_i s'
      have hcount := timeouts_lt_of_waited waited h tls
      have hret : Called (e.symbols ++ rest) s (.recv maxLen) (payloads (refillReads items))
          (refillReads items) (items.drop (refillReads items).length)
          (some ((payloads (refillReads items)).take
            ((Call.recv maxLen).takes (payloads (refillReads items)).length)), s') := by
        refine .returned (accepts_recv_iff.mpr fits) ⟨List.take_prefix .., ?_, fun _ => .inr hcount⟩
          ?_ tls
        · simp [payload]
        · simp [payload, pending]
      simpa [payload, timedOut] using hret
    | ended fits waited payload left_eq timedOut unread =>
      simp only [timedOut]
      exact .ended (accepts_recv_iff.mpr fits) (by rw [payload]; exact Nat.one_pos) left_eq unread
    | bad i mem bad timedOut unread =>
      simp only [timedOut]
      exact .bad i mem (fun hacc => bad hacc.1) unread
  · have hlen := List.length_pos_iff.mpr hp
    have hread : (if maxLen ≤ 0 ∨ 0 < s.pending.length then [] else refillReads items) = [] :=
      if_pos (.inr hlen)
    rw [hread, if_neg (mt WsServerStream.pending_eq_nil.mpr hp)]
    have hc := called_recv_copy (s := s) hpos hp (rfl : s.pending = s.pending)
      (List.forall_mem_nil Item.Fits) h
    simpa [payloads] using hc

/-- **One call.** -/
theorem called (c : Call) (h : symbols s.tls = wire items ++ (e.symbols ++ rest)) :
    Called (e.symbols ++ rest) s c (s.pending ++ payloads (c.reads s.pending.length items))
      (c.reads s.pending.length items) (items.drop (c.reads s.pending.length items).length)
      (s.call c) := by
  cases c with
  | recv maxLen => exact called_recv maxLen h
  | readExact n => exact called_readExact n h

/-! ## Any calls -/

/-- Nothing is left to read: nothing to accept. -/
theorem clear_nil (pending : Nat) (cs : List Call) : Clear pending [] cs := by
  induction cs generalizing pending with
  | nil => trivial
  | cons c cs ih =>
    have hreads : c.reads pending [] = [] := by
      cases c with
      | recv maxLen => exact ite_self []
      | readExact n => rfl
    simp only [Clear, hreads]
    exact ⟨by simp, ih _⟩

theorem drop_reads (c : Call) (pending : Nat) (items : List Item) :
    c.reads pending items ++ items.drop (c.reads pending items).length = items := by
  cases c with
  | recv maxLen =>
    rw [Call.reads]
    split
    · rfl
    · exact refillReads_append_drop items
  | readExact n => exact exactReads_append_drop _ items

theorem faithful_iff_clear (cs : List Call)
    (h : symbols s.tls = wire items ++ (e.symbols ++ rest)) :
    Faithful (e.symbols ++ rest).length (s.pending ++ payloads items) s cs ↔
      Clear s.pending.length items cs := by
  induction cs generalizing s items with
  | nil => exact Iff.rfl
  | cons c cs ih =>
    have hc := called c h
    have hsplit : s.pending ++ payloads items =
        s.pending ++ payloads (c.reads s.pending.length items) ++
          payloads (items.drop (c.reads s.pending.length items).length) := by
      rw [List.append_assoc, ← payloads_append, drop_reads]
    simp only [Faithful, Clear, ← List.length_append]
    rw [hsplit]
    generalize s.pending ++ payloads (c.reads s.pending.length items) = data at hc
    generalize c.reads s.pending.length items = read at hc
    generalize items.drop read.length = left at hc
    generalize s.call c = r at hc
    cases hc with
    | returned accepted returns pending tls =>
      have hout : (data.take (c.takes data.length)).length = c.takes data.length := by
        rw [List.length_take]
        cases c <;> simp only [Call.takes] <;> omega
      have hih := ih tls
      rw [pending, List.length_drop] at hih
      have hle : c.takes data.length ≤ data.length := by cases c <;> exact Nat.min_le_right ..
      dsimp only
      rw [hout, List.drop_append_of_le_length hle, hih]
      refine and_congr ⟨fun _ => accepted, fun _ => ?_⟩ Iff.rfl
      exact ⟨(List.take_prefix ..).trans (List.prefix_append ..), returns.2⟩
    | ended accepted short left_eq unread =>
      subst left_eq
      refine iff_of_true ⟨?_, unread⟩ ⟨accepted, clear_nil _ _⟩
      rwa [payloads, List.flatMap_nil, List.append_nil]
    | bad i mem bad unread =>
      refine iff_of_false (fun hf => ?_) fun hcl => bad (hcl.1 i mem)
      exact absurd hf.2 (Nat.not_lt.mpr unread)

/-- **The payload stream.** Whatever the client sends before it closes, however TLS cuts the bytes
and whichever calls are made: they return the data in order and report no loss of the connection
before the ending, exactly if no call reads an empty data frame or a control frame over the limit,
and no call of `readExact` meets a read timeout. -/
theorem faithful_iff (items : List Item) (e : Ending) (rest : List Symbol) (tls : List Event)
    (cs : List Call) (h : symbols tls = wire items ++ (e.symbols ++ rest)) :
    Faithful (e.symbols ++ rest).length (payloads items) { tls := tls } cs ↔ Clear 0 items cs :=
  faithful_iff_clear cs (s := { tls := tls }) h

/-- A ping, a timeout and a data frame that is cut inside, read with both calls. -/
theorem faithful_iff_ping :
    Faithful 1 [3, 4]
      { tls := [.record 137 [1, 9], .timeout, .record 130 [130, 0, 0, 0, 0, 3], .record 4 [],
        .shutdown] }
      [.recv 8, .recv 1, .readExact 1, .recv 8] :=
  (faithful_iff
    [.ping [9] none (by decide), .timeout, .data [3, 4] ⟨[0, 0, 0, 0], rfl⟩ (by decide)]
    .shutdown [] _ _ (by decide)).mpr
    (by simp [Clear, Call.reads, Call.takes, Call.Accepts, refillReads, Item.isControl,
      Item.Fits, Item.payload, payloads, frameLimit])

/-- An empty data frame, and one with data after it: the first `recv` reports that the connection is
gone. -/
theorem empty_frame_disconnects :
    ¬ ∀ (items : List Item) (e : Ending) (rest : List Symbol) (tls : List Event) (cs : List Call),
      symbols tls = wire items ++ (e.symbols ++ rest) →
        Faithful (e.symbols ++ rest).length (payloads items) { tls := tls } cs := by
  intro h
  have hf := h [.data [] ⟨[1, 2, 3, 4], rfl⟩ (by decide), .data [104] ⟨[0, 0, 0, 0], rfl⟩ (by decide)]
    .shutdown [] [.record 130 [128, 1, 2, 3, 4], .record 130 [129, 0, 0, 0, 0, 104], .shutdown]
    [.recv 1] (by decide)
  have hcall : (WsServerStream.call { tls := [.record 130 [128, 1, 2, 3, 4],
      .record 130 [129, 0, 0, 0, 0, 104], .shutdown] } (.recv 1)).1 = none := by
    decide +kernel
  rw [Faithful] at hf
  split at hf
  · rename_i hc
    rw [hc] at hcall
    cases hcall
  · exact absurd hf.1 (by decide)

end TrafficMonitor.WsServer
