import TrafficMonitor.Server.Cbor

/-!
# Reads of the CBOR parser

`cbor::parse` as it runs: over a position in the input, with each read of a byte written out. A
read outside of the input is a fault.

Proved here: `parse_posOf`, the parser has no faults; it moves its position over the text that
`Cbor.parse` consumes.
-/

namespace TrafficMonitor.Cbor

inductive Stop
  /-- The parser answers `false`. -/
  | refused
  /-- A byte outside of the input is read. -/
  | fault
  deriving DecidableEq, Repr

/-- The bytes of an object in memory. -/
structure Input where
  data : Bytes
  fits : data.length < 2 ^ 63

namespace Input

variable (input : Input)

def byteAt (pos : Nat) : Except Stop UInt8 :=
  match input.data[pos]? with
  | some b => .ok b
  | none => .error .fault

/-- The loop over `n` bytes of a big-endian number. -/
def beNat : Nat → Nat → Nat → Except Stop Nat
  | 0, _, v => .ok v
  | n + 1, pos, v => do
    let b ← input.byteAt pos
    beNat n (pos + 1) (256 * v + b.toNat)

def readNat (n pos : Nat) : Except Stop (Nat × Nat) :=
  if (pos + n) % 2 ^ 64 > input.data.length then .error .refused
  else do
    let v ← input.beNat n pos 0
    .ok (v, pos + n)

def readAdditional (ai pos : Nat) : Except Stop (Nat × Nat) :=
  if ai ≤ 23 then .ok (ai, pos)
  else if ai = 24 then
    if pos ≥ input.data.length then .error .refused
    else do
      let b ← input.byteAt pos
      .ok (b.toNat, pos + 1)
  else if ai = 25 then input.readNat 2 pos
  else if ai = 26 then input.readNat 4 pos
  else if ai = 27 then input.readNat 8 pos
  else .error .refused

/-- The copy of `n` bytes. -/
def assign : Nat → Nat → Except Stop Bytes
  | 0, _ => .ok []
  | n + 1, pos => do
    let b ← input.byteAt pos
    let s ← assign n (pos + 1)
    .ok (b :: s)

/-- A string of `count` bytes. -/
def readString (mk : Bytes → Val) (count pos : Nat) : Except Stop (Val × Nat) :=
  if count > 65536 ∨ (pos + count) % 2 ^ 64 > input.data.length then .error .refused
  else do
    let b ← input.assign count pos
    .ok (mk b, pos + count)

def readItems (parse : Nat → Except Stop (Val × Nat)) : Nat → Nat → Except Stop (List Val × Nat)
  | 0, pos => .ok ([], pos)
  | count + 1, pos => do
    let (v, pos) ← parse pos
    let (items, pos) ← readItems parse count pos
    .ok (v :: items, pos)

def parse : Nat → Nat → Except Stop (Val × Nat)
  | 0, _ => .error .refused
  | levels + 1, pos =>
    if pos ≥ input.data.length then .error .refused
    else do
      let ib ← input.byteAt pos
      let (count, pos) ← input.readAdditional (ib.toNat % 32) (pos + 1)
      match ib.toNat / 32 with
      | 0 => .ok (.uint count, pos)
      | 1 => .ok (.nint count, pos)
      | 2 => input.readString .bytes count pos
      | 3 => input.readString .text count pos
      | 4 =>
        if count > 512 then .error .refused
        else do
          let (items, pos) ← readItems (parse levels) count pos
          .ok (.array items, pos)
      | 5 =>
        if count > 64 then .error .refused
        else do
          let (items, pos) ← readItems (parse levels) (2 * count) pos
          .ok (.map (pairs items), pos)
      | 6 => do
        let (_, pos) ← parse levels pos
        .ok (.other, pos)
      | _ => .ok (.other, pos)

/-! ## Positions -/

/-- The position at which the rest of the input begins. -/
def posOf (s : Bytes) : Nat := input.data.length - s.length

/-- What a function over the rest of the input means for the position. -/
def outcome {α : Type} : Option (α × Bytes) → Except Stop (α × Nat)
  | none => .error .refused
  | some (v, s) => .ok (v, input.posOf s)

variable {input} {s : Bytes}

theorem posOf_cons {b : UInt8} (h : b :: s <:+ input.data) :
    input.posOf (b :: s) + 1 = input.posOf s := by
  have := h.length_le
  simp only [posOf, List.length_cons] at this ⊢
  omega

theorem posOf_drop {n : Nat} (h : s <:+ input.data) (hn : n ≤ s.length) :
    input.posOf (s.drop n) = input.posOf s + n := by
  have := h.length_le
  simp only [posOf, List.length_drop]
  omega

theorem byteAt_posOf {b : UInt8} (h : b :: s <:+ input.data) :
    input.byteAt (input.posOf (b :: s)) = .ok b := by
  obtain ⟨t, ht⟩ := h
  have hpos : input.posOf (b :: s) = t.length := by simp [posOf, ← ht]
  rw [byteAt, hpos, ← ht, List.getElem?_append_right (Nat.le_refl _), Nat.sub_self]
  rfl

theorem lt_iff {n : Nat} (h : s <:+ input.data) (hn : n ≤ 65536) :
    (input.posOf s + n) % 2 ^ 64 > input.data.length ↔ s.length < n := by
  have := h.length_le
  have := input.fits
  rw [posOf, Nat.mod_eq_of_lt (by omega)]
  omega

theorem beNat_posOf {n v : Nat} (h : s <:+ input.data) (hn : n ≤ s.length) :
    input.beNat n (input.posOf s) v = .ok ((s.take n).foldl (fun v b => 256 * v + b.toNat) v) := by
  induction n generalizing s v with
  | zero => rfl
  | succ n ih =>
    cases s with
    | nil => cases hn
    | cons b s =>
      rw [beNat, byteAt_posOf h, posOf_cons h]
      exact ih ((List.suffix_cons b s).trans h) (Nat.le_of_succ_le_succ hn)

theorem assign_posOf {n : Nat} (h : s <:+ input.data) (hn : n ≤ s.length) :
    input.assign n (input.posOf s) = .ok (s.take n) := by
  induction n generalizing s with
  | zero => rfl
  | succ n ih =>
    cases s with
    | nil => cases hn
    | cons b s =>
      rw [assign, byteAt_posOf h, posOf_cons h,
        ih ((List.suffix_cons b s).trans h) (Nat.le_of_succ_le_succ hn)]
      rfl

theorem readNat_posOf {n : Nat} (h : s <:+ input.data) (hn : n ≤ 65536) :
    input.readNat n (input.posOf s) = input.outcome (Cbor.readNat n s) := by
  rw [readNat, Cbor.readNat]
  by_cases hlen : s.length < n
  · rw [if_pos ((lt_iff h hn).mpr hlen), if_pos hlen]
    rfl
  · rw [if_neg (mt (lt_iff h hn).mp hlen), if_neg hlen, beNat_posOf h (Nat.not_lt.mp hlen), outcome,
      posOf_drop h (Nat.not_lt.mp hlen)]
    rfl

theorem readAdditional_posOf {ai : Nat} (h : s <:+ input.data) :
    input.readAdditional ai (input.posOf s) = input.outcome (Cbor.readAdditional ai s) := by
  rw [readAdditional, Cbor.readAdditional]
  split
  · rfl
  split
  · cases s with
    | nil =>
      rw [if_pos (by simp [posOf])]
      rfl
    | cons b s =>
      have := h.length_le
      rw [if_neg (by simp only [posOf, List.length_cons] at this ⊢; omega), byteAt_posOf h,
        posOf_cons h]
      simp [Cbor.readNat, outcome, Cbor.beNat, bind, Except.bind]
  split
  · exact readNat_posOf h (by decide)
  split
  · exact readNat_posOf h (by decide)
  split
  · exact readNat_posOf h (by decide)
  · rfl

theorem readString_posOf {mk : Bytes → Val} {count : Nat} (h : s <:+ input.data) :
    input.readString mk count (input.posOf s) =
      input.outcome (if count > 65536 ∨ s.length < count then none
        else some (mk (s.take count), s.drop count)) := by
  rw [readString]
  by_cases hcount : count > 65536
  · rw [if_pos (.inl hcount), if_pos (.inl hcount)]
    rfl
  have hiff := lt_iff h (Nat.not_lt.mp hcount)
  by_cases hlen : s.length < count
  · rw [if_pos (.inr (hiff.mpr hlen)), if_pos (.inr hlen)]
    rfl
  · rw [if_neg (not_or.mpr ⟨hcount, mt hiff.mp hlen⟩), if_neg (not_or.mpr ⟨hcount, hlen⟩),
      assign_posOf h (Nat.not_lt.mp hlen), outcome, posOf_drop h (Nat.not_lt.mp hlen)]
    rfl

theorem readItems_posOf {p : Nat → Except Stop (Val × Nat)} {q : Bytes → Option (Val × Bytes)}
    (hp : ∀ {s}, s <:+ input.data → p (input.posOf s) = input.outcome (q s))
    (hq : ∀ {s v rest}, q s = some (v, rest) → rest <:+ s) {count : Nat} (h : s <:+ input.data) :
    readItems p count (input.posOf s) = input.outcome (Cbor.readItems q count s) := by
  induction count generalizing s with
  | zero => rfl
  | succ count ih =>
    rw [readItems, Cbor.readItems, hp h]
    cases hv : q s with
    | none => rfl
    | some r =>
      obtain ⟨v, rest⟩ := r
      have ih := ih ((hq hv).trans h)
      simp only [outcome, bind, Except.bind] at ih ⊢
      rw [ih]
      cases Cbor.readItems q count rest <;> rfl

/-- **Reads.** From a position in the input, or at its end, no byte outside is read. -/
theorem parse_posOf {levels : Nat} (h : s <:+ input.data) :
    input.parse levels (input.posOf s) = input.outcome (Cbor.parse levels s) := by
  induction levels generalizing s with
  | zero => rfl
  | succ levels ih =>
    cases s with
    | nil =>
      rw [parse, if_pos (by simp [posOf])]
      rfl
    | cons ib s =>
      have hs := (List.suffix_cons ib s).trans h
      have hlen := h.length_le
      rw [parse, if_neg (by simp only [posOf, List.length_cons] at hlen ⊢; omega), byteAt_posOf h,
        posOf_cons h, Cbor.parse]
      simp only [bind, Except.bind, readAdditional_posOf hs]
      cases hadd : Cbor.readAdditional (ib.toNat % 32) s with
      | none => rfl
      | some r =>
        obtain ⟨count, rest⟩ := r
        have hrest := (readAdditional_suffix hadd).trans hs
        have hitems (n : Nat) : readItems (input.parse levels) n (input.posOf rest) =
            input.outcome (Cbor.readItems (Cbor.parse levels) n rest) :=
          readItems_posOf ih (fun hv => (parse_suffix hv).1) hrest
        dsimp only [outcome]
        -- the major type
        rcases ib.toNat / 32 with _ | _ | _ | _ | _ | _ | _ | n
        · rfl
        · rfl
        · exact readString_posOf hrest
        · exact readString_posOf hrest
        · by_cases hcount : count > 512
          · simp only [hcount, if_true]
          · simp only [hcount, if_false, hitems]
            cases Cbor.readItems (Cbor.parse levels) count rest <;> rfl
        · by_cases hcount : count > 64
          · simp only [hcount, if_true]
          · simp only [hcount, if_false, hitems]
            cases Cbor.readItems (Cbor.parse levels) (2 * count) rest <;> rfl
        · simp only [ih hrest]
          cases Cbor.parse levels rest <;> rfl
        · rfl

end Input

end TrafficMonitor.Cbor
