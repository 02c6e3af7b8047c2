import TrafficMonitor.Server.Base64url

/-!
# The base64url reader of Sign in with Apple

`siwa.hpp` has a base64url reader of its own, with a table that it fills at each call and a loop
over the accumulator, the bits in it and the bytes read so far.

Proved here:

* `siwaBase64urlDecode_eq`: it reads every text as `fromBase64url` does;
* `base64url_codec`: what is written by `toBase64url`, and that both readers read it back.
-/

namespace TrafficMonitor.Siwa

open Bytes WebAuthn

/-- `dec[c] = v` -/
def setDec (dec : UInt8 → Int) (c v : Nat) : UInt8 → Int :=
  Function.update dec (UInt8.ofNat c) v

/-- The table `dec`; -1 is for the characters that are skipped. -/
def siwaDec : UInt8 → Int :=
  let dec : UInt8 → Int := fun _ => -1
  let dec := (List.range 26).foldl (fun dec i => setDec (setDec dec (65 + i) i) (97 + i) (26 + i)) dec
  let dec := (List.range 10).foldl (fun dec i => setDec dec (48 + i) (52 + i)) dec
  let dec := setDec (setDec dec 43 62) 47 63
  setDec (setDec dec 45 62) 95 63

structure Reading where
  acc : Nat := 0
  bits : Nat := 0
  out : Bytes := []

/-- The body of the loop; `acc` has 32 bits. -/
def Reading.char (r : Reading) (c : UInt8) : Reading :=
  let v := siwaDec c
  if v < 0 then r
  else
    let acc := (r.acc <<< 6 ||| v.toNat) % 2 ^ 32
    let bits := r.bits + 6
    if 8 ≤ bits then
      ⟨acc, bits - 8, r.out ++ [UInt8.ofNat ((acc >>> (bits - 8)) &&& 0xFF)]⟩
    else ⟨acc, bits, r.out⟩

def siwaBase64urlDecode (s : Bytes) : Bytes := (s.foldl Reading.char {}).out

/-! ## Both readers -/

/-- Both tables have the same entries. -/
theorem siwaDec_eq : ∀ c, siwaDec c = match sextetOf c with
    | none => -1
    | some n => (n : Int) := by
  decide +kernel

theorem sextetOf_lt {c : UInt8} {n : Nat} (h : sextetOf c = some n) : n < 64 := by
  have hall : ∀ c, ∀ n ∈ sextetOf c, n < 64 := by decide +kernel
  exact hall c n h

theorem shiftLeft_or {acc n : Nat} (h : n < 64) : acc <<< 6 ||| n = acc * 64 + n := by
  rw [← Nat.shiftLeft_add_eq_or_of_lt (by omega), Nat.shiftLeft_eq]

theorem foldl_char (s : Bytes) (r : Reading) :
    (s.foldl Reading.char r).out = r.out ++ readSextets r.acc r.bits s := by
  induction s generalizing r with
  | nil => simp [readSextets]
  | cons c s ih =>
    rw [List.foldl_cons, ih]
    cases hc : sextetOf c with
    | none =>
      have hv : siwaDec c = -1 := by rw [siwaDec_eq, hc]
      simp only [Reading.char, hv, readSextets, hc]
      rfl
    | some n =>
      have hv : siwaDec c = n := by rw [siwaDec_eq, hc]
      have hneg : ¬ (n : Int) < 0 := by omega
      have hbits : r.bits + 6 - 8 = r.bits - 2 := by omega
      have hbyte (x : Nat) : UInt8.ofNat (x &&& 0xFF) = UInt8.ofNat x := by
        rw [← UInt8.toNat_inj, UInt8.toNat_ofNat', UInt8.toNat_ofNat',
          Nat.and_two_pow_sub_one_eq_mod x 8]
        omega
      rw [readSextets_cons hc]
      simp only [Reading.char, hv, if_neg hneg, Int.toNat_natCast, shiftLeft_or (sextetOf_lt hc),
        hbits, hbyte]
      split
      · simp
      · rfl

/-- **Both readers agree** on every text. -/
theorem siwaBase64urlDecode_eq (s : Bytes) : siwaBase64urlDecode s = fromBase64url s :=
  foldl_char s {}

/-! ## The codec -/

/-- The URL-safe alphabet. -/
def urlAlphabet : Bytes := Base64.upperLowerDigits ++ ascii "-_"

theorem mem_urlAlphabet {s : Bytes} {c : UInt8} (h : c ∈ toBase64url s) : c ∈ urlAlphabet := by
  have hall : ∀ n < 64, encUrl n ∈ urlAlphabet := by decide +kernel
  rw [toBase64url_eq] at h
  obtain ⟨n, hn, rfl⟩ := List.mem_map.mp h
  exact hall n (Base64.lt_of_mem_sextets hn)

/-- **The codec.** What is written is read back, without padding and in the URL-safe alphabet;
different strings are written differently, and both readers agree. -/
theorem base64url_codec :
    (∀ s, fromBase64url (toBase64url s) = s) ∧
      (∀ s, ∀ c ∈ toBase64url s, c ∈ urlAlphabet ∧ c ≠ Base64.PAD) ∧
      Function.Injective toBase64url ∧
      ∀ t, siwaBase64urlDecode t = fromBase64url t := by
  refine ⟨fromBase64url_toBase64url, fun s c hc => ?_, ?_, siwaBase64urlDecode_eq⟩
  · have hpad : Base64.PAD ∉ urlAlphabet := by decide
    have hmem := mem_urlAlphabet hc
    exact ⟨hmem, fun e => hpad (e ▸ hmem)⟩
  · intro s t h
    rw [← fromBase64url_toBase64url s, h, fromBase64url_toBase64url]

end TrafficMonitor.Siwa
