import TrafficMonitor.Basic.Bytes

/-!
# The CBOR reader

The parser for attestation objects and COSE keys (`cbor::parse`): integers, strings,
arrays, maps, and values that are skipped over, nested to a depth of at most 12. The
parser's position is the text that is left.

Proved here: `parse_suffix`, a value that is read takes at least one byte from the front
of the text, and leaves the rest of it.
-/

namespace TrafficMonitor.Cbor

/-- `cbor::Val`. A map holds its keys and values in turn; `other` stands for tagged,
simple and floating-point values, whose content is not kept. -/
inductive Val
  | uint (u : Nat)
  | nint (u : Nat)
  | bytes (b : Bytes)
  | text (s : Bytes)
  | array (items : List Val)
  | map (items : List (Val × Val))
  | other

/-- `static_cast<std::int64_t>` of a 64-bit number. -/
def int64 (u : Nat) : Int := if u < 2 ^ 63 then u else (u : Int) - 2 ^ 64

def Val.asInt : Val → Int
  | .uint u => int64 u
  | .nint u => -1 - int64 u
  | _ => 0

def Val.getText (key : Bytes) : Val → Option Val
  | .map items => (items.find? fun kv => match kv.1 with
      | .text s => s = key
      | _ => false).map Prod.snd
  | _ => none

def Val.getInt (key : Int) : Val → Option Val
  | .map items => (items.find? fun kv => match kv.1 with
      | .uint u => int64 u = key
      | .nint u => -1 - int64 u = key
      | _ => false).map Prod.snd
  | _ => none

/-- A big-endian number. -/
def beNat (s : Bytes) : Nat := s.foldl (fun n b => 256 * n + b.toNat) 0

def readNat (n : Nat) (data : Bytes) : Option (Nat × Bytes) :=
  if data.length < n then none else some (beNat (data.take n), data.drop n)

/-- `readAdditional`: the count that the low five bits of the first byte announce. -/
def readAdditional (ai : Nat) (data : Bytes) : Option (Nat × Bytes) :=
  if ai ≤ 23 then some (ai, data)
  else if ai = 24 then readNat 1 data
  else if ai = 25 then readNat 2 data
  else if ai = 26 then readNat 4 data
  else if ai = 27 then readNat 8 data
  else none

/-- `count` values, one after the other. -/
def readItems (parse : Bytes → Option (Val × Bytes)) : Nat → Bytes → Option (List Val × Bytes)
  | 0, data => some ([], data)
  | count + 1, data => match parse data with
    | none => none
    | some (v, data) => (readItems parse count data).map fun p => (v :: p.1, p.2)

/-- The values of a map in pairs. -/
def pairs : List Val → List (Val × Val)
  | k :: v :: items => (k, v) :: pairs items
  | _ => []

/-- `parse`, with the number of levels that may still be entered. -/
def parse : Nat → Bytes → Option (Val × Bytes)
  | 0, _ => none
  | _ + 1, [] => none
  | levels + 1, ib :: data =>
    match readAdditional (ib.toNat % 32) data with
    | none => none
    | some (count, data) =>
      match ib.toNat / 32 with
      | 0 => some (.uint count, data)
      | 1 => some (.nint count, data)
      | 2 =>
        if count > 65536 ∨ data.length < count then none
        else some (.bytes (data.take count), data.drop count)
      | 3 =>
        if count > 65536 ∨ data.length < count then none
        else some (.text (data.take count), data.drop count)
      | 4 =>
        if count > 512 then none
        else (readItems (parse levels) count data).map fun p => (.array p.1, p.2)
      | 5 =>
        if count > 64 then none
        else (readItems (parse levels) (2 * count) data).map fun p => (.map (pairs p.1), p.2)
      | 6 => (parse levels data).map fun p => (.other, p.2)
      | _ => some (.other, data)

/-- The levels of a parse that begins at depth 0. -/
def maxLevels : Nat := 13

/-! ## What is consumed -/

theorem readNat_suffix {k n : Nat} {data rest : Bytes} (h : readNat k data = some (n, rest)) :
    rest <:+ data := by
  unfold readNat at h
  split at h
  · cases h
  · cases h
    exact List.drop_suffix k data

theorem readAdditional_suffix {ai n : Nat} {data rest : Bytes}
    (h : readAdditional ai data = some (n, rest)) : rest <:+ data := by
  unfold readAdditional at h
  split at h
  · cases h
    exact List.suffix_refl _
  · repeat' split at h
    · exact readNat_suffix h
    · exact readNat_suffix h
    · exact readNat_suffix h
    · exact readNat_suffix h
    · cases h

theorem readItems_suffix {p : Bytes → Option (Val × Bytes)}
    (hp : ∀ {data v rest}, p data = some (v, rest) → rest <:+ data) {n : Nat} {data rest : Bytes}
    {vs : List Val} (h : readItems p n data = some (vs, rest)) : rest <:+ data := by
  induction n generalizing data vs with
  | zero =>
    cases h
    exact List.suffix_refl _
  | succ n ih =>
    unfold readItems at h
    split at h
    · cases h
    · rename_i v data' hv
      obtain ⟨q, hq, he⟩ := Option.map_eq_some_iff.mp h
      cases he
      exact (ih hq).trans (hp hv)

theorem parse_suffix {levels : Nat} {data rest : Bytes} {v : Val}
    (h : parse levels data = some (v, rest)) : rest <:+ data ∧ rest.length < data.length := by
  suffices hs : ∃ ib data', data = ib :: data' ∧ rest <:+ data' by
    obtain ⟨ib, data', rfl, hs⟩ := hs
    have := hs.length_le
    exact ⟨hs.trans (List.suffix_cons ib data'), by simp only [List.length_cons]; omega⟩
  induction levels generalizing data rest v with
  | zero => cases h
  | succ levels ih =>
    cases data with
    | nil => cases h
    | cons ib data =>
      refine ⟨ib, data, rfl, ?_⟩
      have hrec : ∀ {data v rest}, parse levels data = some (v, rest) → rest <:+ data := by
        intro data v rest hv
        obtain ⟨ib, data', rfl, hs⟩ := ih hv
        exact hs.trans (List.suffix_cons ib data')
      unfold parse at h
      split at h
      · cases h
      · rename_i count data' hadd
        refine List.IsSuffix.trans ?_ (readAdditional_suffix hadd)
        split at h
        · cases h; exact List.suffix_refl _
        · cases h; exact List.suffix_refl _
        · split at h
          · cases h
          · cases h; exact List.drop_suffix _ _
        · split at h
          · cases h
          · cases h; exact List.drop_suffix _ _
        · split at h
          · cases h
          · obtain ⟨q, hq, he⟩ := Option.map_eq_some_iff.mp h
            cases he
            exact readItems_suffix hrec hq
        · split at h
          · cases h
          · obtain ⟨q, hq, he⟩ := Option.map_eq_some_iff.mp h
            cases he
            exact readItems_suffix hrec hq
        · obtain ⟨q, hq, he⟩ := Option.map_eq_some_iff.mp h
          cases he
          exact hrec hq
        · cases h; exact List.suffix_refl _

end TrafficMonitor.Cbor
