import TrafficMonitor.Basic.Bytes

/-!
# Base64

Three octets are four sextets; a rest of one or two octets is two or three. An
`Alphabet` writes sextets as bytes and carries the proof that it reads them back.
`encodeBlock` and `decodeBlock` are the padded block functions of the crypto library
(`EVP_EncodeBlock`, `EVP_DecodeBlock`), with its rules for blanks at either end.

Proved here:

* `octetsOf_group`: a group reads back as the octets it was made from;
* `decodeBlock_encodeBlock`: a padded block decodes to its bytes, followed by one zero
  byte for each padding character;
* `mem_encodeBlock`: only characters of the alphabet and padding are written.
-/

namespace TrafficMonitor.Base64

/-! ## Groups -/

/-- The 24 bits of one group. -/
def word (a b c : UInt8) : Nat := a.toNat * 65536 + b.toNat * 256 + c.toNat

def groupOf (n : Nat) : List Nat := [n / 262144, n / 4096 % 64, n / 64 % 64, n % 64]

def sextets : Bytes → List Nat
  | [] => []
  | [a] => (groupOf (word a 0 0)).take 2
  | [a, b] => (groupOf (word a b 0)).take 3
  | a :: b :: c :: s => groupOf (word a b c) ++ sextets s

/-- The three octets of the word that four sextets make up. -/
def octetsOf (p q r s : Nat) : Bytes :=
  let n := ((p * 64 + q) * 64 + r) * 64 + s
  [UInt8.ofNat (n / 65536), UInt8.ofNat (n / 256), UInt8.ofNat n]

theorem word_lt (a b c : UInt8) : word a b c < 16777216 := by
  have ha := a.toNat_lt
  have hb := b.toNat_lt
  have hc := c.toNat_lt
  unfold word
  omega

theorem octetsOf_group (a b c : UInt8) :
    octetsOf (word a b c / 262144) (word a b c / 4096 % 64) (word a b c / 64 % 64)
      (word a b c % 64) = [a, b, c] := by
  have ha := a.toNat_lt
  have hb := b.toNat_lt
  have hc := c.toNat_lt
  simp only [octetsOf, word, List.cons.injEq, and_true, ← UInt8.toNat_inj, UInt8.toNat_ofNat']
  refine ⟨?_, ?_, ?_⟩ <;> omega

theorem lt_of_mem_groupOf {n k : Nat} (hn : n < 16777216) (h : k ∈ groupOf n) : k < 64 := by
  simp only [groupOf, List.mem_cons, List.not_mem_nil, or_false] at h
  rcases h with rfl | rfl | rfl | rfl <;> omega

theorem lt_of_mem_sextets {s : Bytes} {k : Nat} (h : k ∈ sextets s) : k < 64 := by
  fun_induction sextets s with
  | case1 => simp at h
  | case2 a => exact lt_of_mem_groupOf (word_lt a 0 0) (List.mem_of_mem_take h)
  | case3 a b => exact lt_of_mem_groupOf (word_lt a b 0) (List.mem_of_mem_take h)
  | case4 a b c s ih =>
    rcases List.mem_append.mp h with h | h
    · exact lt_of_mem_groupOf (word_lt a b c) h
    · exact ih h

private theorem word_one (a : UInt8) : word a 0 0 / 64 % 64 = 0 ∧ word a 0 0 % 64 = 0 := by
  simp only [word, UInt8.toNat_zero]
  omega

private theorem word_two (a b : UInt8) : word a b 0 % 64 = 0 := by
  simp only [word, UInt8.toNat_zero]
  omega

/-! ## Alphabets -/

/-- 64 characters, with the reading that undoes the writing. -/
structure Alphabet where
  enc : Nat → UInt8
  dec : UInt8 → Option Nat
  dec_enc : ∀ n < 64, dec (enc n) = some n

def upperLowerDigits : Bytes :=
  ascii "ABCDEFGHIJKLMNOPQRSTUVWXYZabcdefghijklmnopqrstuvwxyz0123456789"

/-- The alphabet that ends with the characters `c62` and `c63`. -/
def encodeWith (c62 c63 : UInt8) (n : Nat) : UInt8 :=
  (upperLowerDigits ++ [c62, c63]).getD n 0

def decodeWith (c62 c63 : UInt8) (c : UInt8) : Option Nat :=
  (upperLowerDigits ++ [c62, c63]).idxOf? c

def standard : Alphabet where
  enc := encodeWith 43 47
  dec := decodeWith 43 47
  dec_enc := by decide

theorem enc_of_dec {c : UInt8} {n : Nat} (h : standard.dec c = some n) :
    n < 64 ∧ standard.enc n = c := by
  obtain ⟨hlt, hc, -⟩ := List.idxOf?_eq_some_iff.mp h
  have hlen : (upperLowerDigits ++ [43, 47]).length = 64 := by decide
  refine ⟨by omega, ?_⟩
  rw [← hc]
  exact (List.getElem_eq_getD 0).symm

/-- What undoes the writing, and reads nothing else, is the reading of the alphabet. -/
theorem dec_eq {f : UInt8 → Option Nat} (henc : ∀ n < 64, f (standard.enc n) = some n)
    (hval : ∀ c, ∀ n ∈ f c, n < 64 ∧ standard.enc n = c) : standard.dec = f := by
  funext c
  cases hf : f c with
  | some n =>
    obtain ⟨hlt, rfl⟩ := hval c n hf
    exact standard.dec_enc n hlt
  | none =>
    by_contra hne
    obtain ⟨n, hn⟩ := Option.ne_none_iff_exists'.mp hne
    obtain ⟨hlt, rfl⟩ := enc_of_dec hn
    rw [henc n hlt] at hf
    cases hf

/-! ## Padded blocks -/

def PAD : UInt8 := 61

/-- The number of padding characters of a block. -/
def padding (s : Bytes) : Nat := (3 - s.length % 3) % 3

/-- `EVP_EncodeBlock`. -/
def encodeBlock (s : Bytes) : Bytes :=
  (sextets s).map standard.enc ++ List.replicate (padding s) PAD

/-- `B64_WS`: blanks that are skipped before a block. -/
def isBlank (c : UInt8) : Bool := c = SP || c = TAB

/-- `B64_NOT_BASE64`: what is stripped after a block. -/
def isTrailer (c : UInt8) : Bool := isBlank c || c = LF || c = CR || c = 45

/-- `conv_ascii2bin`, which reads the padding character as zero. -/
def readChar (c : UInt8) : Option Nat := if c = PAD then some 0 else standard.dec c

/-- Four characters at a time; `none` for a foreign character or an incomplete group. -/
def decodeGroups : Bytes → Option Bytes
  | [] => some []
  | a :: b :: c :: d :: s => do
    let p ← readChar a
    let q ← readChar b
    let r ← readChar c
    let t ← readChar d
    let rest ← decodeGroups s
    some (octetsOf p q r t ++ rest)
  | _ => none

/-- `while (n > 3 && isTrailer(f[n - 1])) n--;` -/
def stripTrailer (s : Bytes) : Bytes :=
  s.take 3 ++ (s.drop 3).rdropWhile isTrailer

/-- `EVP_DecodeBlock`. -/
def decodeBlock (s : Bytes) : Option Bytes :=
  decodeGroups (stripTrailer (s.dropWhile isBlank))

theorem enc_ne_pad {n : Nat} (h : n < 64) : standard.enc n ≠ PAD := by
  intro e
  have hn := standard.dec_enc n h
  have hp : standard.dec PAD = none := by decide
  rw [e, hp] at hn
  cases hn

theorem readChar_enc {n : Nat} (h : n < 64) : readChar (standard.enc n) = some n := by
  simp [readChar, enc_ne_pad h, standard.dec_enc n h]

@[simp] theorem readChar_pad : readChar PAD = some 0 := rfl

/-- A character that `encodeBlock` may write. -/
def isBlockChar (c : UInt8) : Bool := (readChar c).isSome

theorem mem_encodeBlock {s : Bytes} {c : UInt8} (h : c ∈ encodeBlock s) : isBlockChar c = true := by
  rcases List.mem_append.mp h with h | h
  · obtain ⟨n, hn, rfl⟩ := List.mem_map.mp h
    simp [isBlockChar, readChar_enc (lt_of_mem_sextets hn)]
  · rw [(List.mem_replicate.mp h).2]
    rfl

theorem not_mem_encodeBlock {c : UInt8} (h : isBlockChar c = false) (s : Bytes) :
    c ∉ encodeBlock s := fun hc =>
  Bool.false_ne_true (h.symm.trans (mem_encodeBlock hc))

theorem isBlockChar_not_trailer {c : UInt8} (h : isBlockChar c = true) : isTrailer c = false := by
  cases ht : isTrailer c with
  | false => rfl
  | true =>
    simp only [isTrailer, isBlank, Bool.or_eq_true, decide_eq_true_eq] at ht
    rcases ht with (((rfl | rfl) | rfl) | rfl) | rfl <;> exact absurd h (by decide)

theorem isBlockChar_not_blank {c : UInt8} (h : isBlockChar c = true) : isBlank c = false := by
  have := isBlockChar_not_trailer h
  simp only [isTrailer, Bool.or_eq_false_iff] at this
  exact this.1.1.1

private theorem rdropWhile_of_all {p : UInt8 → Bool} (s : Bytes) (h : ∀ c ∈ s, p c = false) :
    s.rdropWhile p = s := by
  rw [List.rdropWhile_eq_self_iff]
  intro hl
  simp [h _ (List.getLast_mem hl)]

private theorem dropWhile_of_all {p : UInt8 → Bool} (s : Bytes) (h : ∀ c ∈ s, p c = false) :
    s.dropWhile p = s := by
  cases s with
  | nil => rfl
  | cons c s => simp [h c (by simp)]

/-- No blank and no trailer stands in an encoded block, so nothing is stripped from it. -/
theorem decodeBlock_of_block (s : Bytes) :
    decodeBlock (encodeBlock s) = decodeGroups (encodeBlock s) := by
  have hb : ∀ c ∈ encodeBlock s, isBlank c = false := fun c hc =>
    isBlockChar_not_blank (mem_encodeBlock hc)
  have ht : ∀ c ∈ (encodeBlock s).drop 3, isTrailer c = false := fun c hc =>
    isBlockChar_not_trailer (mem_encodeBlock (List.mem_of_mem_drop hc))
  rw [decodeBlock, dropWhile_of_all _ hb, stripTrailer, rdropWhile_of_all _ ht,
    List.take_append_drop]

theorem padding_cons (a b c : UInt8) (s : Bytes) : padding (a :: b :: c :: s) = padding s := by
  simp only [padding, List.length_cons]
  omega

theorem encodeBlock_cons (a b c : UInt8) (s : Bytes) :
    encodeBlock (a :: b :: c :: s) =
      (groupOf (word a b c)).map standard.enc ++ encodeBlock s := by
  simp [encodeBlock, sextets, padding_cons]

private theorem decodeGroups_encodeBlock (s : Bytes) :
    decodeGroups (encodeBlock s) = some (s ++ List.replicate (padding s) 0) := by
  fun_induction sextets s with
  | case1 => rfl
  | case2 a =>
    have h := octetsOf_group a 0 0
    rw [(word_one a).1, (word_one a).2] at h
    have hlt : ∀ k ∈ groupOf (word a 0 0), k < 64 := fun k hk => lt_of_mem_groupOf (word_lt a 0 0) hk
    have e : padding [a] = 2 := rfl
    simp only [groupOf, List.mem_cons, List.not_mem_nil, or_false, forall_eq_or_imp, forall_eq] at hlt
    simp [encodeBlock, sextets, groupOf, e, List.replicate, decodeGroups, readChar_enc hlt.1,
      readChar_enc hlt.2.1, h]
  | case3 a b =>
    have h := octetsOf_group a b 0
    rw [word_two a b] at h
    have hlt : ∀ k ∈ groupOf (word a b 0), k < 64 := fun k hk => lt_of_mem_groupOf (word_lt a b 0) hk
    have e : padding [a, b] = 1 := rfl
    simp only [groupOf, List.mem_cons, List.not_mem_nil, or_false, forall_eq_or_imp, forall_eq] at hlt
    simp [encodeBlock, sextets, groupOf, e, decodeGroups, readChar_enc hlt.1,
      readChar_enc hlt.2.1, readChar_enc hlt.2.2.1, h]
  | case4 a b c s ih =>
    have hlt : ∀ k ∈ groupOf (word a b c), k < 64 := fun k hk => lt_of_mem_groupOf (word_lt a b c) hk
    simp only [groupOf, List.mem_cons, List.not_mem_nil, or_false, forall_eq_or_imp, forall_eq] at hlt
    rw [encodeBlock_cons, padding_cons]
    simp [groupOf, decodeGroups, readChar_enc hlt.1, readChar_enc hlt.2.1, readChar_enc hlt.2.2.1,
      readChar_enc hlt.2.2.2, ih, octetsOf_group]

/-- **Block round trip.** -/
theorem decodeBlock_encodeBlock (s : Bytes) :
    decodeBlock (encodeBlock s) = some (s ++ List.replicate (padding s) 0) := by
  rw [decodeBlock_of_block, decodeGroups_encodeBlock]

theorem length_sextets (s : Bytes) : (sextets s).length + padding s = (s.length + 2) / 3 * 4 := by
  fun_induction sextets s with
  | case1 => rfl
  | case2 a => simp [groupOf, padding]
  | case3 a b => simp [groupOf, padding]
  | case4 a b c s ih =>
    simp only [groupOf, List.length_append, List.length_cons, List.length_nil, padding_cons]
    omega

/-- The length that the caller of `EVP_EncodeBlock` computes for its buffer. -/
theorem length_encodeBlock (s : Bytes) : (encodeBlock s).length = (s.length + 2) / 3 * 4 := by
  rw [encodeBlock, List.length_append, List.length_map, List.length_replicate, length_sextets]

/-- The padding characters are the trailing ones. -/
theorem takeWhile_pad_reverse (s : Bytes) :
    ((encodeBlock s).reverse.takeWhile (· = PAD)).length = padding s := by
  have h : ∀ c ∈ (sextets s).map standard.enc, c ≠ PAD := by
    intro c hc
    obtain ⟨n, hn, rfl⟩ := List.mem_map.mp hc
    exact enc_ne_pad (lt_of_mem_sextets hn)
  have hrev : ((sextets s).map standard.enc).reverse.takeWhile (· = PAD) = [] := by
    cases hr : ((sextets s).map standard.enc).reverse with
    | nil => rfl
    | cons c t =>
      have hc : c ∈ (sextets s).map standard.enc := List.mem_reverse.mp (by simp [hr])
      simp [h c hc]
  rw [encodeBlock, List.reverse_append, List.reverse_replicate,
    List.takeWhile_append_of_pos (by simp), hrev]
  simp

end TrafficMonitor.Base64
