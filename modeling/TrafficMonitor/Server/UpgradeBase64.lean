import TrafficMonitor.Server.Base64url

/-!
# The base64 reader of the upgrade endpoint

`upgrade::base64Decode` shifts every character into an `int` that it never masks, stops at the
first padding character and returns nothing for a foreign one. The accumulator has 32 bits; a
shift beyond its range is taken to wrap around and is recorded.

Proved here:

* `out_decodeLoop`, `fits_decodeLoop`: what is read of a text, and when the accumulator stays in
  its range;
* `base64Decode_encodeBlock`: padded texts are read back;
* `meets_iff`: when the function does on a text what its comment says.
-/

namespace TrafficMonitor.Upgrade

open Bytes Base64

/-! ## The code -/

def kTable : List Int :=
  [-1, -1, -1, -1, -1, -1, -1, -1, -1, -1, -1, -1, -1, -1, -1, -1,
    -1, -1, -1, -1, -1, -1, -1, -1, -1, -1, -1, -1, -1, -1, -1, -1,
    -1, -1, -1, -1, -1, -1, -1, -1, -1, -1, -1, 62, -1, -1, -1, 63,
    52, 53, 54, 55, 56, 57, 58, 59, 60, 61, -1, -1, -1, -2, -1, -1,
    -1, 0, 1, 2, 3, 4, 5, 6, 7, 8, 9, 10, 11, 12, 13, 14,
    15, 16, 17, 18, 19, 20, 21, 22, 23, 24, 25, -1, -1, -1, -1, -1,
    -1, 26, 27, 28, 29, 30, 31, 32, 33, 34, 35, 36, 37, 38, 39, 40,
    41, 42, 43, 44, 45, 46, 47, 48, 49, 50, 51, -1, -1, -1, -1, -1,
    -1, -1, -1, -1, -1, -1, -1, -1, -1, -1, -1, -1, -1, -1, -1, -1,
    -1, -1, -1, -1, -1, -1, -1, -1, -1, -1, -1, -1, -1, -1, -1, -1,
    -1, -1, -1, -1, -1, -1, -1, -1, -1, -1, -1, -1, -1, -1, -1, -1,
    -1, -1, -1, -1, -1, -1, -1, -1, -1, -1, -1, -1, -1, -1, -1, -1,
    -1, -1, -1, -1, -1, -1, -1, -1, -1, -1, -1, -1, -1, -1, -1, -1,
    -1, -1, -1, -1, -1, -1, -1, -1, -1, -1, -1, -1, -1, -1, -1, -1,
    -1, -1, -1, -1, -1, -1, -1, -1, -1, -1, -1, -1, -1, -1, -1, -1,
    -1, -1, -1, -1, -1, -1, -1, -1, -1, -1, -1, -1, -1, -1, -1, -1]

def kMaxInt : Int := 2 ^ 31 - 1

/-- The locals of the loop; `fits` says that no shift has left the range of `buf` so far. -/
structure Acc where
  buf : Int := 0
  bits : Nat := 0
  out : Bytes := []
  fits : Bool := true
  deriving DecidableEq

/-- One character of the alphabet. -/
def Acc.push (a : Acc) (v : Int) : Acc :=
  let shifted := a.buf * 64
  -- the six low bits are free, so `| v` adds
  let buf := Int.bmod shifted (2 ^ 32) + v
  let bits := a.bits + 6
  { buf := buf
    bits := if 8 ≤ bits then bits - 8 else bits
    out := if 8 ≤ bits then a.out ++ [UInt8.ofNat (buf / 2 ^ (bits - 8) % 256).toNat] else a.out
    fits := a.fits && decide (-2 ^ 31 ≤ shifted) && decide (shifted ≤ kMaxInt) }

def decodeLoop (a : Acc) : Bytes → Acc
  | [] => a
  | c :: s =>
    let v := kTable.getD c.toNat (-1)
    if v = -2 then a
    else if v = -1 then { a with out := [] }
    else decodeLoop (a.push v) s

def base64Decode (enc : Bytes) : Bytes := (decodeLoop {} enc).out

/-- No intermediate value of the accumulator leaves its range. -/
def fits (enc : Bytes) : Bool := (decodeLoop {} enc).fits

/-! ## Texts -/

def isSextet (c : UInt8) : Bool := (standard.dec c).isSome

/-- Groups of four characters, the last one padded. -/
def WellFormed (t : Bytes) : Prop :=
  ∃ body k, t = body ++ List.replicate k PAD ∧ (∀ c ∈ body, isSextet c = true) ∧ k ≤ 2 ∧
    (body.length + k) % 4 = 0

/-- The number that characters of the alphabet are, to the base 64. -/
def value (n : Nat) (s : Bytes) : Nat := s.foldl (fun n c => 64 * n + (standard.dec c).getD 0) n

/-- The characters that are read: those before the first padding or foreign character. -/
def body (t : Bytes) : Bytes := t.takeWhile isSextet

/-- A foreign character comes before any padding. -/
def ForeignFirst (t : Bytes) : Prop := ∃ c ∈ (t.dropWhile isSextet).head?, c ≠ PAD

/-- The standard alphabet is read like that of base64url, without its own two characters. -/
private theorem standard_dec : standard.dec = fun c =>
    if c = 45 || c = 95 then none else WebAuthn.sextetOf c := by
  apply Base64.dec_eq
  · decide +kernel
  · decide +kernel

/-- The table has the standard alphabet, which the reader of base64url reads alike. -/
private theorem table : ∀ c : UInt8,
    (kTable.getD c.toNat (-1) = if c = PAD then -2 else match standard.dec c with
      | none => -1
      | some n => (n : Int)) ∧
    ∀ n ∈ standard.dec c, WebAuthn.sextetOf c = some n ∧ n < 64 ∧ c ≠ PAD := by
  rw [standard_dec]
  decide +kernel

theorem exists_sextet {c : UInt8} (h : isSextet c = true) :
    ∃ n, standard.dec c = some n ∧ WebAuthn.sextetOf c = some n ∧ n < 64 ∧
      kTable.getD c.toNat (-1) = n := by
  obtain ⟨n, hn⟩ := Option.isSome_iff_exists.mp h
  obtain ⟨hurl, hlt, hpad⟩ := (table c).2 n hn
  refine ⟨n, hn, hurl, hlt, ?_⟩
  rw [(table c).1, if_neg hpad, hn]

/-! ## The loop -/

theorem decodeLoop_sextet (a : Acc) {c : UInt8} {n : Nat} (h : kTable.getD c.toNat (-1) = n)
    (s : Bytes) : decodeLoop a (c :: s) = decodeLoop (a.push n) s := by
  have h2 : ¬ (n : Int) = -2 := by omega
  have h1 : ¬ (n : Int) = -1 := by omega
  simp only [decodeLoop, h, h1, h2, if_false]

/-- What follows the characters of the alphabet ends the loop: padding and the end of the text keep
what was read, a foreign character drops it. -/
theorem decodeLoop_rest (a : Acc) {t : Bytes} (h : ∀ c ∈ t.head?, isSextet c = false) :
    decodeLoop a t = if ∃ c ∈ t.head?, c ≠ PAD then { a with out := [] } else a := by
  cases t with
  | nil => simp [decodeLoop]
  | cons c t =>
    have hdec : standard.dec c = none := by simpa [isSextet] using h c rfl
    have hc := (table c).1
    rw [hdec] at hc
    by_cases hp : c = PAD
    · rw [if_pos hp] at hc
      rw [decodeLoop, if_pos hc, if_neg (by simp [hp])]
    · rw [if_neg hp] at hc
      have hne : ¬ kTable.getD c.toNat (-1) = -2 := by
        rw [hc]
        decide
      rw [decodeLoop, if_neg hne, if_pos hc, if_pos ⟨c, rfl, hp⟩]

/-- The accumulator keeps the remainder that the base64url reader keeps. -/
theorem push_buf_emod (a : Acc) {acc n : Nat} (h : a.buf % 2 ^ 32 = acc) :
    (a.push n).buf % 2 ^ 32 = ((acc * 64 + n) % 2 ^ 32 : Nat) := by
  have hmod : Int.bmod (a.buf * 64) (2 ^ 32) % 2 ^ 32 = a.buf * 64 % 2 ^ 32 := Int.bmod_emod
  simp only [Acc.push]
  omega

/-- The byte that is read depends on the remainder only. -/
theorem byte_eq {x : Int} {m k : Nat} (h : x % 2 ^ 32 = m) (hk : k < 8) :
    UInt8.ofNat (x / 2 ^ k % 256).toNat = UInt8.ofNat (m >>> k) := by
  rw [← UInt8.toNat_inj, UInt8.toNat_ofNat', UInt8.toNat_ofNat', Nat.shiftRight_eq_div_pow]
  have hcases : k = 0 ∨ k = 1 ∨ k = 2 ∨ k = 3 ∨ k = 4 ∨ k = 5 ∨ k = 6 ∨ k = 7 := by omega
  rcases hcases with rfl | rfl | rfl | rfl | rfl | rfl | rfl | rfl <;> omega

/-- **Reading.** The bytes are those of the base64url reader, whose accumulator is the remainder
of this one. -/
theorem out_decodeLoop (a : Acc) {s : Bytes} (hs : ∀ c ∈ s, isSextet c = true) (t : Bytes)
    (h : ∀ c ∈ t.head?, isSextet c = false) {acc : Nat} (hacc : a.buf % 2 ^ 32 = acc)
    (hbits : a.bits < 8) :
    (decodeLoop a (s ++ t)).out =
      if ∃ c ∈ t.head?, c ≠ PAD then [] else a.out ++ WebAuthn.readSextets acc a.bits s := by
  induction s generalizing a acc with
  | nil =>
    rw [List.nil_append, decodeLoop_rest a h]
    split
    · rfl
    · simp [WebAuthn.readSextets]
  | cons c s ih =>
    obtain ⟨n, -, hurl, hlt, htab⟩ := exists_sextet (hs c (by simp))
    have hbuf := push_buf_emod a (n := n) hacc
    rw [List.cons_append, decodeLoop_sextet a htab,
      ih (a.push n) (fun d hd => hs d (by simp [hd])) hbuf (by simp only [Acc.push]; split <;> omega),
      WebAuthn.readSextets_cons hurl]
    by_cases hfull : 8 ≤ a.bits + 6
    · have hbyte := byte_eq (k := a.bits + 6 - 8) hbuf (by omega)
      have hk : a.bits + 6 - 8 = a.bits - 2 := by omega
      have hout : (a.push n).out =
          a.out ++ [UInt8.ofNat (((acc * 64 + n) % 2 ^ 32) >>> (a.bits - 2))] := by
        rw [← hk, ← hbyte]
        exact if_pos hfull
      have hb : (a.push n).bits = a.bits - 2 := by
        rw [← hk]
        exact if_pos hfull
      rw [if_pos hfull, hout, hb]
      simp
    · have hout : (a.push n).out = a.out := if_neg hfull
      have hb : (a.push n).bits = a.bits + 6 := if_neg hfull
      rw [if_neg hfull, hout, hb]

theorem value_cons (n : Nat) {c : UInt8} {v : Nat} (h : standard.dec c = some v) (s : Bytes) :
    value n (c :: s) = value (64 * n + v) s := by
  simp [value, h]

theorem le_value (n : Nat) (s : Bytes) : n ≤ value n s := by
  induction s generalizing n with
  | nil => exact Nat.le_refl n
  | cons c s ih =>
    have hle := ih (64 * n + (standard.dec c).getD 0)
    exact Nat.le_trans (by omega) hle

theorem decodeLoop_of_not_fits (a : Acc) (h : a.fits = false) (s : Bytes) :
    (decodeLoop a s).fits = false := by
  induction s generalizing a with
  | nil => exact h
  | cons c s ih =>
    unfold decodeLoop
    extract_lets v
    split
    · exact h
    · split
      · exact h
      · exact ih _ (by simp [Acc.push, h])

/-- **The accumulator.** It stays in its range if the characters that were read are a number in that
range. -/
theorem fits_decodeLoop (a : Acc) {m : Nat} (hm : a.buf = m) (hfits : a.fits = true)
    (hlt : m < 2 ^ 31) {s : Bytes} (hs : ∀ c ∈ s, isSextet c = true) (t : Bytes)
    (h : ∀ c ∈ t.head?, isSextet c = false) :
    (decodeLoop a (s ++ t)).fits = true ↔ value m s < 2 ^ 31 := by
  induction s generalizing a m with
  | nil =>
    rw [List.nil_append, decodeLoop_rest a h]
    have hsame : (if ∃ c ∈ t.head?, c ≠ PAD then { a with out := [] } else a).fits = a.fits := by
      split <;> rfl
    rw [hsame, hfits]
    exact ⟨fun _ => hlt, fun _ => rfl⟩
  | cons c s ih =>
    obtain ⟨n, hdec, -, hn, htab⟩ := exists_sextet (hs c (by simp))
    rw [List.cons_append, decodeLoop_sextet a htab, value_cons m hdec]
    by_cases hin : 64 * m + n < 2 ^ 31
    · have hshift : Int.bmod (a.buf * 64) (2 ^ 32) = a.buf * 64 :=
        Int.bmod_eq_of_le (by omega) (by omega)
      rw [hm] at hshift
      refine ih _ ?_ ?_ hin fun d hd => hs d (by simp [hd])
      · simp only [Acc.push, hshift, hm]
        omega
      · simp only [Acc.push, hfits, hm, kMaxInt, Bool.true_and, Bool.and_eq_true,
          decide_eq_true_eq]
        omega
    · have hover : (a.push n).fits = false := by
        simp only [Acc.push, hfits, hm, kMaxInt, Bool.true_and, Bool.and_eq_false_iff,
          decide_eq_false_iff_not]
        omega
      have hle := le_value (64 * m + n) s
      rw [decodeLoop_of_not_fits _ hover]
      simp only [Bool.false_eq_true, false_iff]
      omega

/-! ## Whole texts -/

/-- A text is what is read of it and the rest. -/
theorem split_text (t : Bytes) : t = body t ++ t.dropWhile isSextet ∧
    (∀ c ∈ body t, isSextet c = true) ∧ ∀ c ∈ (t.dropWhile isSextet).head?, isSextet c = false := by
  refine ⟨List.takeWhile_append_dropWhile.symm, fun c hc => List.mem_takeWhile_imp hc, ?_⟩
  intro c hc
  have hne : t.dropWhile isSextet ≠ [] := by
    rintro e
    simp [e] at hc
  rw [List.head?_eq_some_head hne] at hc
  rw [← Option.mem_some.mp hc]
  exact Bool.eq_false_iff.mpr fun h => absurd h (by simpa using List.head_dropWhile_not isSextet hne)

open Classical in
theorem base64Decode_eq (t : Bytes) : base64Decode t =
    if ForeignFirst t then [] else WebAuthn.readSextets 0 0 (body t) := by
  obtain ⟨ht, hbody, hrest⟩ := split_text t
  have hzero : ({} : Acc).buf % 2 ^ 32 = (0 : Nat) := rfl
  have h := out_decodeLoop {} hbody _ hrest hzero (by decide)
  rw [← ht] at h
  rw [base64Decode, h, ForeignFirst]
  simp

theorem fits_iff (t : Bytes) : fits t = true ↔ value 0 (body t) < 2 ^ 31 := by
  obtain ⟨ht, hbody, hrest⟩ := split_text t
  have h := fits_decodeLoop {} (m := 0) rfl rfl (by decide) hbody _ hrest
  rw [← ht] at h
  exact h

/-- Nothing is read of a text with a foreign character before any padding, and of one that begins
with at most one character of the alphabet. -/
theorem base64Decode_eq_nil {t : Bytes} :
    base64Decode t = [] ↔ ForeignFirst t ∨ (body t).length ≤ 1 := by
  have hcount : (body t).countP WebAuthn.isReadable = (body t).length := by
    refine List.countP_eq_length.mpr fun c hc => ?_
    obtain ⟨n, -, hurl, -⟩ := exists_sextet ((split_text t).2.1 c hc)
    simp [WebAuthn.isReadable, hurl]
  have hlen := WebAuthn.length_readSextets 0 0 (body t) (by decide)
  rw [base64Decode_eq]
  by_cases hf : ForeignFirst t
  · simp [hf]
  · rw [if_neg hf, ← List.length_eq_zero_iff, hlen, hcount]
    simp only [hf, false_or]
    omega

theorem isSextet_enc {n : Nat} (h : n < 64) : isSextet (standard.enc n) = true := by
  rw [isSextet, standard.dec_enc n h]
  rfl

theorem body_append_pad {s : Bytes} (hs : ∀ c ∈ s, isSextet c = true) (k : Nat) :
    body (s ++ List.replicate k PAD) = s ∧
      (s ++ List.replicate k PAD).dropWhile isSextet = List.replicate k PAD := by
  have hpad : isSextet PAD = false := by decide
  unfold body
  rw [List.takeWhile_append_of_pos hs, List.dropWhile_append_of_pos hs]
  cases k with
  | zero => simp
  | succ k => simp [List.replicate_succ, hpad]

theorem not_foreignFirst_append_pad {s : Bytes} (hs : ∀ c ∈ s, isSextet c = true) (k : Nat) :
    ¬ ForeignFirst (s ++ List.replicate k PAD) := by
  rintro ⟨c, hc, hne⟩
  rw [(body_append_pad hs k).2] at hc
  cases k with
  | zero => simp at hc
  | succ k => exact hne (by simpa [List.replicate_succ] using hc.symm)

/-- Both alphabets are read alike. -/
theorem readSextets_enc {ns : List Nat} (h : ∀ n ∈ ns, n < 64) (acc bits : Nat) :
    WebAuthn.readSextets acc bits (ns.map standard.enc) =
      WebAuthn.readSextets acc bits (ns.map WebAuthn.encUrl) := by
  induction ns generalizing acc bits with
  | nil => rfl
  | cons n ns ih =>
    have hn := h n (by simp)
    have hstd := ((table (standard.enc n)).2 n (standard.dec_enc n hn)).1
    have htail := ih fun m hm => h m (by simp [hm])
    rw [List.map_cons, List.map_cons, WebAuthn.readSextets_cons hstd,
      WebAuthn.readSextets_cons (WebAuthn.sextetOf_encUrl n hn), htail, htail]

/-- **Round trip.** -/
theorem base64Decode_encodeBlock (s : Bytes) : base64Decode (encodeBlock s) = s := by
  have hs : ∀ c ∈ (sextets s).map standard.enc, isSextet c = true := by
    intro c hc
    obtain ⟨n, hn, rfl⟩ := List.mem_map.mp hc
    exact isSextet_enc (lt_of_mem_sextets hn)
  rw [base64Decode_eq, encodeBlock, if_neg (not_foreignFirst_append_pad hs _),
    (body_append_pad hs _).1, readSextets_enc fun n hn => lt_of_mem_sextets hn]
  exact WebAuthn.readSextets_sextets 0 s

/-! ## The comment -/

/-- The text is decoded if it is an encoding and refused if it is malformed, and the accumulator
stays in its range. -/
structure Meets (t : Bytes) : Prop where
  encoded : ∀ s, t = encodeBlock s → base64Decode t = s
  malformed : ¬ WellFormed t → base64Decode t = []
  inRange : fits t = true

/-- The characters that are read are a number below 2³¹, and the text is well formed or has a
foreign character before any padding or begins with at most one character of the alphabet. -/
structure Harmless (t : Bytes) : Prop where
  small : value 0 (body t) < 2 ^ 31
  shape : WellFormed t ∨ ForeignFirst t ∨ (body t).length ≤ 1

/-- **The reader.** It does on a text what its comment says exactly if the text is harmless. -/
theorem meets_iff (t : Bytes) : Meets t ↔ Harmless t := by
  constructor
  · intro h
    refine ⟨(fits_iff t).mp h.inRange, ?_⟩
    by_cases hw : WellFormed t
    · exact .inl hw
    · exact .inr (base64Decode_eq_nil.mp (h.malformed hw))
  · intro h
    refine ⟨?_, fun hw => ?_, (fits_iff t).mpr h.small⟩
    · rintro s rfl
      exact base64Decode_encodeBlock s
    · rcases h.shape with hwell | hnil
      · exact absurd hwell hw
      · exact base64Decode_eq_nil.mpr hnil

/-- Six bytes overflow the accumulator, and what follows the padding is ignored. -/
theorem long_and_trailing :
    encodeBlock (List.replicate 6 255) = ascii "////////" ∧ ¬ Meets (ascii "////////") ∧
      base64Decode (ascii "QQ==QQ==") = ascii "A" ∧ ¬ Meets (ascii "QQ==QQ==") := by
  have hread : base64Decode (ascii "QQ==QQ==") = ascii "A" := by decide +kernel
  have hill : ¬ WellFormed (ascii "QQ==QQ==") := by
    rintro ⟨b, k, ht, hb, hk, -⟩
    -- at most two characters at the end are padding, so the first padding is not there
    have hlen := congrArg List.length ht
    have htake := congrArg (List.take 6) ht
    simp only [List.length_append, List.length_replicate] at hlen
    have h8 : (ascii "QQ==QQ==").length = 8 := by decide
    rw [List.take_append_of_le_length (by omega)] at htake
    have hmem : PAD ∈ (ascii "QQ==QQ==").take 6 := by decide
    rw [htake] at hmem
    exact absurd (hb _ (List.mem_of_mem_take hmem)) (by decide)
  refine ⟨by decide +kernel, fun h => ?_, hread, fun h => ?_⟩
  · have hfits : fits (ascii "////////") = false := by decide +kernel
    exact absurd h.inRange (by simp [hfits])
  · have hnil := h.malformed hill
    rw [hread] at hnil
    exact absurd hnil (by decide)

end TrafficMonitor.Upgrade
