import TrafficMonitor.Basic.Bytes

/-!
# Byte strings in order

Strings and arrays of bytes are compared lexicographically; bytes in network order are also a
number. Proved here: for strings of one length the two orders are the same (`lexLt_iff`), and
beginnings of one length are compared first (`lexLt_append`).
-/

namespace TrafficMonitor

/-- `operator<` of strings and of arrays. -/
def lexLt : Bytes → Bytes → Bool
  | a :: as, b :: bs => a < b || (a = b && lexLt as bs)
  | [], _ :: _ => true
  | _, [] => false

/-- The number that bytes in network order are; `ntohl` of four of them. -/
def netValue (a : Bytes) : Nat := a.foldl (fun n b => 256 * n + b.toNat) 0

theorem foldl_netValue (a : Bytes) (n : Nat) :
    a.foldl (fun n b => 256 * n + b.toNat) n = n * 256 ^ a.length + netValue a := by
  induction a generalizing n with
  | nil => simp [netValue]
  | cons b a ih =>
    rw [netValue, List.foldl_cons, List.foldl_cons, ih, ih, List.length_cons, Nat.pow_succ]
    grind

theorem netValue_cons (b : UInt8) (a : Bytes) :
    netValue (b :: a) = b.toNat * 256 ^ a.length + netValue a := by
  rw [netValue, List.foldl_cons, foldl_netValue]
  simp

theorem netValue_lt (a : Bytes) : netValue a < 256 ^ a.length := by
  induction a with
  | nil => simp [netValue]
  | cons b a ih =>
    rw [netValue_cons, List.length_cons, Nat.pow_succ]
    have hb := b.toNat_lt
    have : b.toNat * 256 ^ a.length ≤ 255 * 256 ^ a.length := Nat.mul_le_mul_right _ (by omega)
    omega

/-- Arrays are compared as the numbers that they are in network order. -/
theorem lexLt_iff {a b : Bytes} (h : a.length = b.length) :
    lexLt a b = true ↔ netValue a < netValue b := by
  induction a generalizing b with
  | nil =>
    obtain rfl := List.eq_nil_of_length_eq_zero h.symm
    simp [lexLt, netValue]
  | cons c a ih =>
    cases b with
    | nil => cases h
    | cons d b =>
      have hlen : a.length = b.length := Nat.succ.inj h
      have ha := netValue_lt a
      have hb := netValue_lt b
      rw [lexLt, netValue_cons, netValue_cons, hlen, Bool.or_eq_true, Bool.and_eq_true,
        decide_eq_true_eq, decide_eq_true_eq, ih hlen, UInt8.lt_iff_toNat_lt]
      rw [hlen] at ha
      generalize 256 ^ b.length = w at ha hb ⊢
      rcases Nat.lt_trichotomy c.toNat d.toNat with hcd | hcd | hcd
      · have : (c.toNat + 1) * w ≤ d.toNat * w := Nat.mul_le_mul_right _ hcd
        rw [Nat.add_mul] at this
        simp only [hcd, true_or, true_iff]
        omega
      · have hc : c = d := UInt8.toNat_inj.mp hcd
        simp [hc]
      · have : (d.toNat + 1) * w ≤ c.toNat * w := Nat.mul_le_mul_right _ hcd
        rw [Nat.add_mul] at this
        have hc : c ≠ d := fun e => Nat.lt_irrefl _ (e ▸ hcd)
        simp only [hc, false_and, or_false, show ¬ c.toNat < d.toNat by omega, false_iff]
        omega

@[simp] theorem lexLt_self (a : Bytes) : lexLt a a = false := by
  induction a with
  | nil => rfl
  | cons c a ih => simp [lexLt, ih]

/-- Beginnings of one length are compared first. -/
theorem lexLt_append {a b : Bytes} (h : a.length = b.length) (s t : Bytes) :
    lexLt (a ++ s) (b ++ t) = true ↔ lexLt a b = true ∨ (a = b ∧ lexLt s t = true) := by
  induction a generalizing b with
  | nil =>
    obtain rfl := List.eq_nil_of_length_eq_zero h.symm
    simp [lexLt]
  | cons c a ih =>
    cases b with
    | nil => cases h
    | cons d b =>
      simp only [List.cons_append, lexLt, Bool.or_eq_true, Bool.and_eq_true, decide_eq_true_eq,
        ih (Nat.succ.inj h), List.cons.injEq]
      tauto

end TrafficMonitor
