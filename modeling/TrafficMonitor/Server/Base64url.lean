import TrafficMonitor.Server.WebAuthn

/-!
# Base64url texts

What `toBase64url` writes, and what the lenient reader `fromBase64url` makes of any text.

Proved here:

* `fromBase64url_toBase64url`: what is written is read back;
* `length_fromBase64url`: the reader passes over what is not in its table, and gives a byte
  for every eight bits of the rest.
-/

namespace TrafficMonitor.WebAuthn

open Bytes

/-- A sextet in the alphabet of base64url. -/
def encUrl (n : Nat) : UInt8 :=
  let c := Base64.standard.enc n
  if c = 43 then 45 else if c = 47 then 95 else c

theorem encUrl_clean : ∀ n < 64, encUrl n ≠ QUOTE ∧ encUrl n ≠ BACKSLASH ∧ encUrl n ≠ Base64.PAD := by
  decide +kernel

theorem toBase64url_eq (data : Bytes) : toBase64url data = (Base64.sextets data).map encUrl := by
  have hpad (n : Nat) : trimRight (· = Base64.PAD)
      ((Base64.sextets data).map encUrl ++ List.replicate n Base64.PAD) =
        (Base64.sextets data).map encUrl := by
    induction n with
    | zero =>
      rw [List.replicate_zero, List.append_nil]
      refine trimRight_of_last fun hl => ?_
      obtain ⟨n, hn, he⟩ := List.mem_map.mp (List.getLast_mem hl)
      rw [← he]
      simpa using (encUrl_clean n (Base64.lt_of_mem_sextets hn)).2.2
    | succ n ih =>
      rw [List.replicate_succ', ← List.append_assoc]
      unfold trimRight at ih ⊢
      rw [List.rdropWhile_concat_pos _ _ _ (by simp), ih]
  rw [← hpad (Base64.padding data)]
  simp [toBase64url, Base64.encodeBlock, Base64.PAD]
  rfl

/-- Four characters for three bytes, and no padding. -/
theorem length_toBase64url (data : Bytes) :
    (toBase64url data).length = (4 * data.length + 2) / 3 := by
  rw [toBase64url_eq, List.length_map]
  fun_induction Base64.sextets data with
  | case1 => rfl
  | case2 a => simp [Base64.groupOf]
  | case3 a b => simp [Base64.groupOf]
  | case4 a b c s ih =>
    simp only [List.length_append, ih, Base64.groupOf, List.length_cons, List.length_nil]
    omega

/-! ## Reading -/

theorem sextetOf_encUrl : ∀ n < 64, sextetOf (encUrl n) = some n := by
  decide +kernel

/-- The character is in the table of the reader. -/
def isReadable (c : UInt8) : Bool := (sextetOf c).isSome

/-- One character with its sextet. -/
theorem readSextets_cons {c : UInt8} {n : Nat} (h : sextetOf c = some n) (acc bits : Nat)
    (s : Bytes) : readSextets acc bits (c :: s) =
      if bits + 6 ≥ 8 then
        UInt8.ofNat (((acc * 64 + n) % 2 ^ 32) >>> (bits - 2)) ::
          readSextets ((acc * 64 + n) % 2 ^ 32) (bits - 2) s
      else readSextets ((acc * 64 + n) % 2 ^ 32) (bits + 6) s := by
  simp only [readSextets, h]

theorem length_readSextets (acc bits : Nat) (s : Bytes) (h : bits < 8) :
    (readSextets acc bits s).length = (bits + 6 * s.countP isReadable) / 8 := by
  induction s generalizing acc bits with
  | nil => simp [readSextets]; omega
  | cons c s ih =>
    cases hc : sextetOf c with
    | none => simp [readSextets, hc, ih acc bits h, isReadable]
    | some n =>
      rw [readSextets_cons hc, List.countP_cons_of_pos (by simp [isReadable, hc])]
      split
      · rw [List.length_cons, ih _ _ (by omega)]
        omega
      · rw [ih _ _ (by omega)]
        omega

theorem length_fromBase64url (s : Bytes) :
    (fromBase64url s).length = 6 * s.countP isReadable / 8 := by
  rw [fromBase64url, length_readSextets 0 0 s (by decide), Nat.zero_add]

/-- A text is read as nothing when it has at most one character of the table. -/
theorem fromBase64url_eq_nil {s : Bytes} : fromBase64url s = [] ↔ s.countP isReadable < 2 := by
  rw [← List.length_eq_zero_iff, length_fromBase64url]
  omega

/-! ## The round trip -/

/-- Bits that were read before the last two sextets do not reach the next octet. -/
private theorem octet_eq (acc p q : Nat) {k : Nat} (hk : k = 4 ∨ k = 2 ∨ k = 0) :
    UInt8.ofNat (((((acc * 64 + p) % 2 ^ 32) * 64 + q) % 2 ^ 32) >>> k) =
      UInt8.ofNat ((p * 64 + q) >>> k) := by
  rw [← UInt8.toNat_inj, UInt8.toNat_ofNat', UInt8.toNat_ofNat', Nat.shiftRight_eq_div_pow,
    Nat.shiftRight_eq_div_pow]
  rcases hk with rfl | rfl | rfl <;> omega

private theorem octets_of_word (a b c : UInt8) :
    UInt8.ofNat ((Base64.word a b c / 262144 * 64 + Base64.word a b c / 4096 % 64) >>> 4) = a ∧
    UInt8.ofNat ((Base64.word a b c / 4096 % 64 * 64 + Base64.word a b c / 64 % 64) >>> 2) = b ∧
    UInt8.ofNat ((Base64.word a b c / 64 % 64 * 64 + Base64.word a b c % 64) >>> 0) = c := by
  have ha := a.toNat_lt
  have hb := b.toNat_lt
  have hc := c.toNat_lt
  simp only [← UInt8.toNat_inj, UInt8.toNat_ofNat', Nat.shiftRight_eq_div_pow, Base64.word]
  omega

theorem readSextets_sextets (acc : Nat) (data : Bytes) :
    readSextets acc 0 ((Base64.sextets data).map encUrl) = data := by
  fun_induction Base64.sextets data generalizing acc with
  | case1 => rfl
  | case2 a =>
    have hdec : ∀ n ∈ Base64.groupOf (Base64.word a 0 0), sextetOf (encUrl n) = some n := fun n h =>
      sextetOf_encUrl n (Base64.lt_of_mem_groupOf (Base64.word_lt a 0 0) h)
    simp only [Base64.groupOf, List.mem_cons, forall_eq_or_imp] at hdec
    obtain ⟨ha, -, -⟩ := octets_of_word a 0 0
    simp only [Base64.groupOf, List.take_succ_cons, List.take_zero, List.map_cons, List.map_nil]
    rw [readSextets_cons hdec.1, if_neg (by omega), readSextets_cons hdec.2.1, if_pos (by omega),
      octet_eq _ _ _ (.inl rfl), ha]
    rfl
  | case3 a b =>
    have hdec : ∀ n ∈ Base64.groupOf (Base64.word a b 0), sextetOf (encUrl n) = some n := fun n h =>
      sextetOf_encUrl n (Base64.lt_of_mem_groupOf (Base64.word_lt a b 0) h)
    simp only [Base64.groupOf, List.mem_cons, forall_eq_or_imp] at hdec
    obtain ⟨ha, hb, -⟩ := octets_of_word a b 0
    simp only [Base64.groupOf, List.take_succ_cons, List.take_zero, List.map_cons, List.map_nil]
    rw [readSextets_cons hdec.1, if_neg (by omega), readSextets_cons hdec.2.1, if_pos (by omega),
      readSextets_cons hdec.2.2.1, if_pos (by omega), octet_eq _ _ _ (.inl rfl), ha,
      octet_eq _ _ _ (.inr (.inl rfl)), hb]
    rfl
  | case4 a b c s ih =>
    have hdec : ∀ n ∈ Base64.groupOf (Base64.word a b c), sextetOf (encUrl n) = some n := fun n h =>
      sextetOf_encUrl n (Base64.lt_of_mem_groupOf (Base64.word_lt a b c) h)
    simp only [Base64.groupOf, List.mem_cons, forall_eq_or_imp] at hdec
    obtain ⟨ha, hb, hc⟩ := octets_of_word a b c
    simp only [Base64.groupOf, List.map_cons, List.cons_append, List.nil_append]
    rw [readSextets_cons hdec.1, if_neg (by omega), readSextets_cons hdec.2.1, if_pos (by omega),
      readSextets_cons hdec.2.2.1, if_pos (by omega), readSextets_cons hdec.2.2.2.1,
      if_pos (by omega), octet_eq _ _ _ (.inl rfl), ha, octet_eq _ _ _ (.inr (.inl rfl)), hb,
      octet_eq _ _ _ (.inr (.inr rfl)), hc]
    exact congrArg (a :: b :: c :: ·) (ih _)

/-- **Round trip.** -/
theorem fromBase64url_toBase64url (data : Bytes) : fromBase64url (toBase64url data) = data := by
  rw [toBase64url_eq]
  exact readSextets_sextets 0 data

end TrafficMonitor.WebAuthn
