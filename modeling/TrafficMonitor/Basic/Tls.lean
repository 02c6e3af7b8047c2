import TrafficMonitor.Basic.Bytes

/-!
# Reads from a TLS connection

What a connection still holds is a list of events: pieces of the byte stream, as one
`SSL_read` would return them if it was given the room, read timeouts, and the end that the
peer announced. `symbols` forgets how the bytes are cut into pieces.

Proved here:

* `sslRead_byte`, `sslRead_timeout`, `sslRead_shutdown`: what a read of one byte meets;
* `sslReadBlock_bytes`: a blocking read gets the bytes that come next, however they are cut;
* `length_sslReadBlock_le`: a blocking read puts nothing back;
* `sslRead_bytes`, `sslRead_ends`: what one read gets of bytes that nothing readable follows.
-/

namespace TrafficMonitor.Tls

open Bytes

/-- A piece of the stream holds at least one byte. -/
inductive Event
  | record (b : UInt8) (bs : Bytes)
  | timeout
  | shutdown
  deriving DecidableEq, Repr

inductive Symbol
  | byte (b : UInt8)
  | timeout
  | shutdown
  deriving DecidableEq, Repr

def ofBytes (s : Bytes) : List Symbol := s.map .byte

def Event.symbols : Event → List Symbol
  | .record b bs => ofBytes (b :: bs)
  | .timeout => [.timeout]
  | .shutdown => [.shutdown]

def symbols (es : List Event) : List Symbol := es.flatMap Event.symbols

/-- What is left of a piece stays in front of the others. -/
def pushBack : Bytes → List Event → List Event
  | [], es => es
  | b :: bs, es => .record b bs :: es

/-- What one `SSL_read` reports. -/
inductive Read
  | data (s : Bytes)
  | timedOut
  | closed
  deriving DecidableEq, Repr

/-- `SSL_read` of at most `n` bytes, `n` at least one. -/
def sslRead (n : Nat) : List Event → Read × List Event
  | [] => (.closed, [])
  | .record b bs :: es => (.data ((b :: bs).take n), pushBack ((b :: bs).drop n) es)
  | .timeout :: es => (.timedOut, es)
  | .shutdown :: es => (.closed, es)

/-- A loop of `SSL_read` until `n` bytes are there; a read that times out is repeated. The bytes
are fewer than `n` if the connection ended. -/
def sslReadBlock : Nat → List Event → Bytes × List Event
  | 0, es => ([], es)
  | _ + 1, [] => ([], [])
  | n + 1, .record b bs :: es =>
    if n + 1 ≤ bs.length + 1 then ((b :: bs).take (n + 1), pushBack ((b :: bs).drop (n + 1)) es)
    else
      let r := sslReadBlock (n - bs.length) es
      (b :: bs ++ r.1, r.2)
  | n + 1, .timeout :: es => sslReadBlock (n + 1) es
  | _ + 1, .shutdown :: es => ([], es)

@[simp] theorem ofBytes_nil : ofBytes [] = [] := rfl

@[simp] theorem ofBytes_cons (b : UInt8) (s : Bytes) : ofBytes (b :: s) = .byte b :: ofBytes s :=
  rfl

@[simp] theorem ofBytes_append (s t : Bytes) : ofBytes (s ++ t) = ofBytes s ++ ofBytes t :=
  List.map_append

@[simp] theorem length_ofBytes (s : Bytes) : (ofBytes s).length = s.length := List.length_map _

theorem ofBytes_injective : Function.Injective ofBytes := by
  refine List.map_injective_iff.mpr fun a b h => ?_
  injection h

@[simp] theorem symbols_nil : symbols [] = [] := rfl

@[simp] theorem symbols_cons (e : Event) (es : List Event) :
    symbols (e :: es) = e.symbols ++ symbols es := rfl

@[simp] theorem symbols_pushBack (s : Bytes) (es : List Event) :
    symbols (pushBack s es) = ofBytes s ++ symbols es := by
  cases s <;> rfl

/-! ## Reads of one byte -/

theorem sslRead_byte {es : List Event} {b : UInt8} {rest : List Symbol}
    (h : symbols es = .byte b :: rest) :
    ∃ es', sslRead 1 es = (.data [b], es') ∧ symbols es' = rest := by
  cases es with
  | nil => cases h
  | cons e es =>
    cases e with
    | record c cs =>
      injection h with hb hrest
      injection hb with hb
      subst hb
      exact ⟨pushBack cs es, rfl, by rw [symbols_pushBack]; exact hrest⟩
    | timeout => injection h with hb; cases hb
    | shutdown => injection h with hb; cases hb

theorem sslRead_timeout {es : List Event} {rest : List Symbol}
    (h : symbols es = .timeout :: rest) :
    ∃ es', sslRead 1 es = (.timedOut, es') ∧ symbols es' = rest := by
  cases es with
  | nil => cases h
  | cons e es =>
    cases e with
    | record c cs => injection h with hb; cases hb
    | timeout => injection h with _ hrest; exact ⟨es, rfl, hrest⟩
    | shutdown => injection h with hb; cases hb

theorem sslRead_shutdown {es : List Event} {rest : List Symbol}
    (h : symbols es = .shutdown :: rest) :
    ∃ es', sslRead 1 es = (.closed, es') ∧ symbols es' = rest := by
  cases es with
  | nil => cases h
  | cons e es =>
    cases e with
    | record c cs => injection h with hb; cases hb
    | timeout => injection h with hb; cases hb
    | shutdown => injection h with _ hrest; exact ⟨es, rfl, hrest⟩

/-! ## Blocking reads -/

/-- **The next bytes.** -/
theorem sslReadBlock_bytes {es : List Event} {s : Bytes} {rest : List Symbol}
    (h : symbols es = ofBytes s ++ rest) :
    ∃ es', sslReadBlock s.length es = (s, es') ∧ symbols es' = rest := by
  induction es generalizing s with
  | nil =>
    cases s with
    | nil => exact ⟨[], rfl, h⟩
    | cons a s => cases h
  | cons e es ih =>
    cases s with
    | nil => exact ⟨e :: es, by simp [sslReadBlock], h⟩
    | cons a s =>
      cases e with
      | timeout => injection h with hb; cases hb
      | shutdown => injection h with hb; cases hb
      | record b bs =>
        rw [symbols_cons, Event.symbols] at h
        simp only [List.length_cons, sslReadBlock]
        split
        · -- the bytes end in this piece
          rename_i hle
          have hs : (b :: bs).take (s.length + 1) = a :: s := by
            have ht := congrArg (List.take (s.length + 1)) h
            rw [List.take_append_of_le_length (by simpa using hle),
              List.take_left' (by simp), ofBytes, ← List.map_take] at ht
            exact ofBytes_injective ht
          refine ⟨_, by rw [hs], ?_⟩
          have hd := congrArg (List.drop (s.length + 1)) h
          rw [List.drop_append_of_le_length (by simpa using hle),
            List.drop_left' (by simp), ofBytes, ← List.map_drop] at hd
          rw [symbols_pushBack]
          exact hd
        · -- the piece is too short
          rename_i hgt
          obtain ⟨t, ht⟩ : ∃ t, a :: s = (b :: bs) ++ t := by
            refine ⟨(a :: s).drop (bs.length + 1), ?_⟩
            have hb := congrArg (List.take (bs.length + 1)) h
            rw [List.take_left' (by simp),
              List.take_append_of_le_length (by simp only [length_ofBytes, List.length_cons]; omega),
              ofBytes, ofBytes, ← List.map_take] at hb
            have hb := ofBytes_injective hb
            rw [hb]
            exact (List.take_append_drop _ _).symm
          have hlen : s.length - bs.length = t.length := by
            have := congrArg List.length ht
            simp only [List.length_cons, List.length_append] at this
            omega
          rw [ht, ofBytes_append, List.append_assoc, List.append_cancel_left_eq] at h
          obtain ⟨es', hr, hs'⟩ := ih h
          refine ⟨es', ?_, hs'⟩
          rw [hlen, hr, ht]

theorem length_sslReadBlock_le (n : Nat) (es : List Event) :
    (symbols (sslReadBlock n es).2).length ≤ (symbols es).length := by
  fun_induction sslReadBlock n es with
  | case1 es => exact Nat.le_refl _
  | case2 n => exact Nat.le_refl _
  | case3 n b bs es h =>
    simp only [symbols_pushBack, symbols_cons, Event.symbols, List.length_append, length_ofBytes,
      List.length_drop, List.length_cons]
    omega
  | case4 n b bs es h r ih =>
    simp only [symbols_cons, List.length_append]
    exact Nat.le_trans ih (Nat.le_add_left ..)
  | case5 n es ih =>
    simp only [symbols_cons, List.length_append]
    exact Nat.le_trans ih (Nat.le_add_left ..)
  | case6 n es =>
    simp only [symbols_cons, List.length_append]
    exact Nat.le_add_left ..

/-! ## Reads to the end -/

/-- The next read gets no data. -/
def Ends (rest : List Symbol) : Prop := ∀ b, rest.head? ≠ some (.byte b)

theorem sslRead_bytes {n : Nat} (hn : 0 < n) {es : List Event} {t : Bytes} (ht : t ≠ [])
    {rest : List Symbol} (hr : Ends rest) (he : symbols es = ofBytes t ++ rest) :
    ∃ a b es', a ≠ [] ∧ t = a ++ b ∧ sslRead n es = (.data a, es') ∧
      symbols es' = ofBytes b ++ rest := by
  obtain ⟨c, t, rfl⟩ := List.exists_cons_of_ne_nil ht
  cases es with
  | nil => cases he
  | cons e es =>
    cases e with
    | timeout => injection he with hb; cases hb
    | shutdown => injection he with hb; cases hb
    | record d ds =>
      rw [symbols_cons, Event.symbols] at he
      -- the piece holds nothing that is behind the bytes
      obtain ⟨u, hu, hes⟩ : ∃ u, c :: t = d :: ds ++ u ∧ symbols es = ofBytes u ++ rest := by
        rcases List.append_eq_append_iff.mp he with ⟨u, hu, hes⟩ | ⟨u, hu, hrest⟩
        · obtain ⟨v, w, hvw, hv, rfl⟩ := List.map_eq_append_iff.mp hu
          obtain rfl := ofBytes_injective hv
          exact ⟨w, hvw, hes⟩
        · obtain ⟨v, w, hvw, hv, rfl⟩ := List.map_eq_append_iff.mp hu
          obtain rfl := ofBytes_injective hv
          cases w with
          | nil => exact ⟨[], by simpa using hvw.symm, by simpa using hrest.symm⟩
          | cons x w => exact absurd (by rw [hrest]; rfl) (hr x)
      refine ⟨(d :: ds).take n, (d :: ds).drop n ++ u, _, ?_, ?_, rfl, ?_⟩
      · rw [ne_eq, List.take_eq_nil_iff]
        simp [hn.ne']
      · rw [hu, ← List.append_assoc, List.take_append_drop]
      · rw [symbols_pushBack, hes, ofBytes_append, List.append_assoc]

theorem sslRead_ends {es : List Event} (h : Ends (symbols es)) (n : Nat) :
    (sslRead n es).1 = .timedOut ∨ (sslRead n es).1 = .closed := by
  cases es with
  | nil => exact .inr rfl
  | cons e es =>
    cases e with
    | record b bs => exact absurd rfl (h b)
    | timeout => exact .inl rfl
    | shutdown => exact .inr rfl

end TrafficMonitor.Tls
