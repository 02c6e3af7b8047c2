import TrafficMonitor.Basic.Bytes
import TrafficMonitor.Basic.Lines

/-!
# The wire protocol shared by client and server

Constants of the data phase, the record of one `D` line and its parser
(`proto_client_server.hpp`), and the server limits that the line loop reads
(`ServerConfig`).
-/

namespace TrafficMonitor

open Bytes

/-! ## Constants -/

def kMaxSessionSeconds : Nat := 6 * 3600
def kMaxIfaceLabelLen : Nat := 64
def kMaxIpLabelLen : Nat := 50
def kMaxAnnounceAddressesPerSession : Nat := 64
def kAnnounceRateLimitSec : Nat := 30
def kHealthIntervalSec : Nat := 30
def kCtrlReqIdMaxLen : Nat := 32

def kDataLinePrefix : Bytes := ascii "D "
def kHealthLinePrefix : Bytes := ascii "H "
def kExtIPLinePrefix : Bytes := ascii "X "
def kAddrLinePrefix : Bytes := ascii "A "
def kCtrlLinePrefix : Bytes := ascii "C "
def kLogRespLinePrefix : Bytes := ascii "L "
def kExtIPNull : Bytes := ascii "null"

/-- The limits of `ServerConfig` that the data phase uses, with their defaults. -/
structure ServerConfig where
  max_recv_buffer_bytes : Nat := 1024 * 1024
  max_iface_len : Nat := kMaxIfaceLabelLen
  max_ip_len : Nat := kMaxIpLabelLen
  idle_timeout_seconds : Nat := 300
  max_d_lines_per_second_per_connection : Nat := 20000
  deriving DecidableEq, Repr

/-! ## D-lines -/

structure PacketMeta where
  iface : Bytes
  srcIp : Bytes
  dstIp : Bytes
  bytes : Nat
  deriving DecidableEq, Repr

/-- The separators between the fields of a D-line. -/
def isSep (c : UInt8) : Bool := c = SP || c = TAB || c = CR || c = LF

/-- `nextTok`: the next field, the text from its first byte on, and the text after it. -/
def nextTok (p : Bytes) : Option (Bytes × Bytes × Bytes) :=
  let b := p.dropWhile isSep
  if b = [] then none
  else some (b.takeWhile (!isSep ·), b, b.dropWhile (!isSep ·))

/-- `isspace` in the C locale. -/
def isSpace (c : UInt8) : Bool := c = SP || (9 ≤ c && c ≤ 13)

/-- `std::strtoull(s, &end, 10)`: `none` when no digit is consumed. Out of range gives
the largest value, and a minus sign negates modulo 2^64. -/
def strtoull (s : Bytes) : Option Nat :=
  let t := s.dropWhile isSpace
  let neg := t.head? = some 45
  let ds := (if t.head? = some 45 ∨ t.head? = some 43 then t.tail else t).takeWhile isDigit
  if ds = [] then none
  else
    let v := digitsValue ds
    some (if 2 ^ 64 ≤ v then 2 ^ 64 - 1 else if neg then (2 ^ 64 - v) % 2 ^ 64 else v)

/-- `std::stoull(s)` and, where `unsigned long` has 64 bits, `std::stoul(s)`: `none` when it
throws, without a digit or out of range. -/
def stoull (s : Bytes) : Option Nat :=
  let t := s.dropWhile isSpace
  let neg := t.head? = some 45
  let ds := (if t.head? = some 45 ∨ t.head? = some 43 then t.tail else t).takeWhile isDigit
  if ds = [] then none
  else
    let v := digitsValue ds
    if 2 ^ 64 ≤ v then none else some (if neg then (2 ^ 64 - v) % 2 ^ 64 else v)

/-- `if (limit == 0) limit = dflt;` -/
def orDefault (limit dflt : Nat) : Nat := if limit = 0 then dflt else limit

/-- The body of a D-line, after the prefix `"D "`. -/
def parseDataLine (line : Bytes) (maxIfaceLen maxIpLen : Nat) : Option PacketMeta := do
  let (iface, _, p) ← nextTok line
  let (src, _, p) ← nextTok p
  let (dst, _, p) ← nextTok p
  let (_, bb, _) ← nextTok p
  let maxIfaceLen := orDefault maxIfaceLen kMaxIfaceLabelLen
  let maxIpLen := orDefault maxIpLen kMaxIpLabelLen
  if iface.length > maxIfaceLen ∨ src.length > maxIpLen ∨ dst.length > maxIpLen then none
  else
    let val ← strtoull bb
    if val > 2 ^ 32 - 1 then none else some ⟨iface, src, dst, val⟩

/-! ## Properties of the parser -/

/-- What `nextTok` returns: a field free of separators and not empty. -/
theorem nextTok_eq_some {p tok b rest : Bytes} (h : nextTok p = some (tok, b, rest)) :
    tok ≠ [] ∧ (∀ c ∈ tok, isSep c = false) ∧ b = tok ++ rest := by
  simp only [nextTok] at h
  split at h
  · cases h
  · rename_i hb
    simp only [Option.some.injEq, Prod.mk.injEq] at h
    obtain ⟨rfl, rfl, rfl⟩ := h
    refine ⟨?_, ?_, (List.takeWhile_append_dropWhile).symm⟩
    · intro e
      obtain ⟨c, t, hc⟩ := List.exists_cons_of_ne_nil hb
      have hs : isSep c = false := by
        have := List.head_dropWhile_not isSep (l := p) hb
        simpa [hc] using this
      simp [hc, hs] at e
    · intro c hc
      simpa using List.mem_takeWhile_imp hc

/-- A field followed by a separator, or ending the text, is read back as it is. -/
theorem nextTok_append (tok rest : Bytes) (hne : tok ≠ []) (htok : ∀ c ∈ tok, isSep c = false)
    (hrest : ∀ c ∈ rest.head?, isSep c = true) :
    nextTok (tok ++ rest) = some (tok, tok ++ rest, rest) := by
  obtain ⟨c, t, rfl⟩ := List.exists_cons_of_ne_nil hne
  have hc : isSep c = false := htok c (by simp)
  have hdrop : (c :: t ++ rest).dropWhile isSep = c :: t ++ rest := by simp [hc]
  have htail : rest.takeWhile (!isSep ·) = [] ∧ rest.dropWhile (!isSep ·) = rest := by
    cases rest with
    | nil => simp
    | cons d rest => simp [hrest d (by simp)]
  have hall : ∀ d ∈ c :: t, (!isSep d) = true := fun d hd => by simp [htok d hd]
  simp only [nextTok, hdrop]
  rw [List.takeWhile_append_of_pos hall, List.dropWhile_append_of_pos hall, htail.1, htail.2]
  simp

theorem nextTok_sep (c : UInt8) (p : Bytes) (hc : isSep c = true) :
    nextTok (c :: p) = nextTok p := by
  simp [nextTok, hc]

/-- What an accepted D-line satisfies, whatever its text was. -/
theorem parseDataLine_bounds {line : Bytes} {maxIface maxIp : Nat} {m : PacketMeta}
    (h : parseDataLine line maxIface maxIp = some m) :
    m.iface ≠ [] ∧ m.iface.length ≤ orDefault maxIface kMaxIfaceLabelLen ∧
      (∀ c ∈ m.iface, isSep c = false) ∧ m.bytes ≤ 2 ^ 32 - 1 := by
  simp only [parseDataLine, Option.bind_eq_bind, Option.bind_eq_some_iff, Prod.exists] at h
  obtain ⟨iface, _, p, hti, src, _, p, hts, dst, _, p, htd, _, bb, _, htb, h⟩ := h
  split at h
  · cases h
  · rename_i hlen
    obtain ⟨val, hv, h⟩ := Option.bind_eq_some_iff.mp h
    split at h
    · cases h
    · rename_i hval
      simp only [Option.some.injEq] at h
      subst h
      obtain ⟨hne, hsep, _⟩ := nextTok_eq_some hti
      simp only [not_or, Nat.not_lt] at hlen
      exact ⟨hne, hlen.1, hsep, Nat.not_lt.mp hval⟩

/-- A text that begins with a digit has neither blanks nor a sign before it. -/
private theorem digits_head {ds : Bytes} (hne : ds ≠ []) (hds : ∀ c ∈ ds, isDigit c = true)
    (rest : Bytes) (hrest : ∀ c ∈ rest.head?, isDigit c = false) :
    (ds ++ rest).dropWhile isSpace = ds ++ rest ∧ (ds ++ rest).head? ≠ some 45 ∧
      (ds ++ rest).head? ≠ some 43 ∧ (ds ++ rest).takeWhile isDigit = ds := by
  obtain ⟨d, t, rfl⟩ := List.exists_cons_of_ne_nil hne
  have hdig : isDigit d = true := hds d (by simp)
  have hother (b : UInt8) (hb : isDigit b = false) : d ≠ b := fun e => by simp [← e, hdig] at hb
  have hspace : isSpace d = false := by
    have hnum : 48 ≤ d.toNat := by
      have : (48 ≤ d) ∧ (d ≤ 57) := by simpa [isDigit] using hdig
      exact UInt8.le_iff_toNat_le.mp this.1
    simp only [isSpace, Bool.or_eq_false_iff, decide_eq_false_iff_not, Bool.and_eq_false_iff,
      UInt8.le_iff_toNat_le]
    refine ⟨hother SP (by decide), .inr ?_⟩
    change ¬ d.toNat ≤ 13
    omega
  refine ⟨by simp [hspace], ?_, ?_, ?_⟩
  · simpa using hother 45 (by decide)
  · simpa using hother 43 (by decide)
  · rw [List.takeWhile_append_of_pos hds]
    cases rest with
    | nil => simp
    | cons c rest => simp [hrest c (by simp)]

/-- Plain digits are read as their value, whatever non-digit follows them. -/
theorem strtoull_digits {ds : Bytes} (hne : ds ≠ []) (hds : ∀ c ∈ ds, isDigit c = true)
    (rest : Bytes) (hrest : ∀ c ∈ rest.head?, isDigit c = false) :
    strtoull (ds ++ rest) =
      some (if 2 ^ 64 ≤ digitsValue ds then 2 ^ 64 - 1 else digitsValue ds) := by
  obtain ⟨hdrop, hminus, hplus, htake⟩ := digits_head hne hds rest hrest
  simp only [strtoull, hdrop, hminus, hplus, or_self, if_false, htake, hne]

theorem stoull_digits {ds : Bytes} (hne : ds ≠ []) (hds : ∀ c ∈ ds, isDigit c = true)
    (rest : Bytes) (hrest : ∀ c ∈ rest.head?, isDigit c = false) :
    stoull (ds ++ rest) = if 2 ^ 64 ≤ digitsValue ds then none else some (digitsValue ds) := by
  obtain ⟨hdrop, hminus, hplus, htake⟩ := digits_head hne hds rest hrest
  simp only [stoull, hdrop, hminus, hplus, or_self, if_false, htake, hne]

/-- The digits of a number are read back by `strtoull`, whatever non-digit follows them. -/
theorem strtoull_decimal (n : Nat) (rest : Bytes) (hn : n < 2 ^ 64)
    (hrest : ∀ c ∈ rest.head?, isDigit c = false) :
    strtoull (decimal n ++ rest) = some n := by
  rw [strtoull_digits (decimal_ne_nil n) (fun c hc => isDigit_of_mem_decimal hc) rest hrest,
    digitsValue_decimal, if_neg (Nat.not_le.mpr hn)]

theorem stoull_decimal (n : Nat) (rest : Bytes) (hn : n < 2 ^ 64)
    (hrest : ∀ c ∈ rest.head?, isDigit c = false) :
    stoull (decimal n ++ rest) = some n := by
  rw [stoull_digits (decimal_ne_nil n) (fun c hc => isDigit_of_mem_decimal hc) rest hrest,
    digitsValue_decimal, if_neg (Nat.not_le.mpr hn)]

theorem isSep_SP : isSep SP = true := rfl

theorem isSep_of_isDigit {c : UInt8} (h : isDigit c = true) : isSep c = false := by
  cases hs : isSep c with
  | false => rfl
  | true =>
    simp only [isSep, Bool.or_eq_true, decide_eq_true_eq] at hs
    rcases hs with ((rfl | rfl) | rfl) | rfl <;> exact absurd h (by decide)

/-- **Fields round trip.** Four fields without separators, each after one blank, and a
count of at most 32 bits, are read back as they were written. -/
theorem parseDataLine_fields (iface src dst : Bytes) (n maxIface maxIp : Nat)
    (hi : iface ≠ [] ∧ ∀ c ∈ iface, isSep c = false) (hs : src ≠ [] ∧ ∀ c ∈ src, isSep c = false)
    (hd : dst ≠ [] ∧ ∀ c ∈ dst, isSep c = false)
    (hilen : iface.length ≤ orDefault maxIface kMaxIfaceLabelLen)
    (hslen : src.length ≤ orDefault maxIp kMaxIpLabelLen)
    (hdlen : dst.length ≤ orDefault maxIp kMaxIpLabelLen) (hn : n ≤ 2 ^ 32 - 1) :
    parseDataLine (iface ++ SP :: (src ++ SP :: (dst ++ SP :: decimal n))) maxIface maxIp =
      some ⟨iface, src, dst, n⟩ := by
  have hsep : ∀ t : Bytes, ∀ c ∈ (SP :: t).head?, isSep c = true := by
    intro t c hc
    cases hc
    exact isSep_SP
  have e1 := nextTok_append iface (SP :: (src ++ SP :: (dst ++ SP :: decimal n))) hi.1 hi.2 (hsep _)
  have e2 := nextTok_append src (SP :: (dst ++ SP :: decimal n)) hs.1 hs.2 (hsep _)
  have e3 := nextTok_append dst (SP :: decimal n) hd.1 hd.2 (hsep _)
  have e4 := nextTok_append (decimal n) [] (decimal_ne_nil n)
    (fun c hc => isSep_of_isDigit (isDigit_of_mem_decimal hc)) (by simp)
  rw [List.append_nil] at e4
  have e5 := strtoull_decimal n [] (by omega) (by simp)
  rw [List.append_nil] at e5
  have hlen : ¬ (iface.length > orDefault maxIface kMaxIfaceLabelLen ∨
      src.length > orDefault maxIp kMaxIpLabelLen ∨ dst.length > orDefault maxIp kMaxIpLabelLen) := by
    omega
  simp only [parseDataLine, e1, Option.bind_eq_bind, Option.bind_some, nextTok_sep SP _ isSep_SP,
    e2, e3, e4, e5, hlen, ↓reduceIte]
  rw [if_neg (by omega)]

end TrafficMonitor
