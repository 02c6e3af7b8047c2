import TrafficMonitor.Basic.Inet
import TrafficMonitor.Client.Dissect

/-!
# Texts of addresses

`inet_ntop` writes an address and `inet_pton` reads it. A group of an IPv6 address is written
without leading zeros, the first longest run of two or more zero groups as `::`.

Proved here:

* `inet_pton4_inet_ntop4`, `inet_pton6_inet_ntop6`: the texts are read back, so different
  addresses have different texts (`inet_ntop6_inj`);
* `inet_ntop6_full`, `inet_ntop6_short`: the two forms of an IPv6 text, and `inet_ntop6_head`:
  how it begins;
* `inet_pton4_inet_ntop6`: an IPv6 text is no IPv4 text.
-/

namespace TrafficMonitor.AddressText

open Bytes Inet
open Dissect (inet_ntop4 inet_ntop6 words hexWord zeroRun longestRun)

/-! ## Groups -/

theorem digitChar_eq {n : Nat} (h : n < 16) : UInt8.ofNat (Nat.digitChar n).toNat = hexDigit n := by
  have hall : ∀ n < 16, UInt8.ofNat (Nat.digitChar n).toNat = hexDigit n := by decide
  exact hall n h

theorem hexDigitValue_hexDigit {n : Nat} (h : n < 16) : hexDigitValue (hexDigit n) = some n := by
  have hall : ∀ n < 16, hexDigitValue (hexDigit n) = some n := by decide
  exact hall n h

theorem hexWord_of_lt {n : Nat} (h : n < 16) : hexWord n = [hexDigit n] := by
  rw [hexWord, Nat.toDigits_of_lt_base h, List.map_singleton, digitChar_eq h]

theorem hexWord_of_le {n : Nat} (h : 16 ≤ n) :
    hexWord n = hexWord (n / 16) ++ [hexDigit (n % 16)] := by
  rw [hexWord, Nat.toDigits_of_base_le (by omega) h, List.map_append, List.map_singleton,
    digitChar_eq (Nat.mod_lt _ (by omega)), hexWord]

theorem hexWord_ne_nil (n : Nat) : hexWord n ≠ [] := by
  simp [hexWord, Nat.toDigits_ne_nil]

/-- The characters of a group are hexadecimal digits. -/
theorem hexDigitValue_of_mem {n : Nat} {c : UInt8} (h : c ∈ hexWord n) :
    (hexDigitValue c).isSome = true := by
  induction n using Nat.strong_induction_on with
  | _ n ih =>
    by_cases hn : n < 16
    · rw [hexWord_of_lt hn, List.mem_singleton] at h
      simp [h, hexDigitValue_hexDigit hn]
    · rw [hexWord_of_le (by omega)] at h
      rcases List.mem_append.mp h with h | h
      · exact ih (n / 16) (by omega) h
      · rw [List.mem_singleton] at h
        simp [h, hexDigitValue_hexDigit (Nat.mod_lt n (by omega : 16 > 0))]

/-- The bytes of some groups. -/
def bytesOf (ws : List Nat) : Bytes := ws.flatMap fun w => [UInt8.ofNat (w / 256), UInt8.ofNat (w % 256)]

theorem length_bytesOf (ws : List Nat) : (bytesOf ws).length = 2 * ws.length := by
  induction ws with
  | nil => rfl
  | cons w ws ih =>
    simp only [bytesOf, List.flatMap_cons, List.length_append, List.length_cons, List.length_nil] at ih ⊢
    omega

theorem bytesOf_append (ws vs : List Nat) : bytesOf (ws ++ vs) = bytesOf ws ++ bytesOf vs := by
  simp [bytesOf]

theorem bytesOf_replicate (n : Nat) : bytesOf (List.replicate n 0) = List.replicate (2 * n) 0 := by
  induction n with
  | zero => rfl
  | succ n ih =>
    have hcons : bytesOf (List.replicate (n + 1) 0) = 0 :: 0 :: bytesOf (List.replicate n 0) := rfl
    rw [hcons, ih]
    rfl

/-- The groups of an address are below 2¹⁶ and make up its bytes. -/
theorem words_spec {a : Bytes} {n : Nat} (h : a.length = 2 * n) :
    bytesOf (words a) = a ∧ (words a).length = n ∧ ∀ w ∈ words a, w < 65536 := by
  induction n generalizing a with
  | zero =>
    obtain rfl := List.eq_nil_of_length_eq_zero h
    exact ⟨rfl, rfl, fun w hw => absurd hw (List.not_mem_nil)⟩
  | succ n ih =>
    rcases a with _ | ⟨x, _ | ⟨y, rest⟩⟩
    · simp at h
    · simp at h
      omega
    · have hx := x.toNat_lt
      have hy := y.toNat_lt
      obtain ⟨hb, hl, hw⟩ := ih (a := rest) (by simp at h; omega)
      have hhi : (x.toNat * 256 + y.toNat) / 256 = x.toNat := by omega
      have hlo : (x.toNat * 256 + y.toNat) % 256 = y.toNat := by omega
      refine ⟨?_, by simp [words, hl], ?_⟩
      · have hcons : bytesOf (words (x :: y :: rest)) =
            UInt8.ofNat ((x.toNat * 256 + y.toNat) / 256) ::
              UInt8.ofNat ((x.toNat * 256 + y.toNat) % 256) :: bytesOf (words rest) := rfl
        rw [hcons, hhi, hlo, hb]
        simp
      · intro w hmem
        rcases List.mem_cons.mp hmem with rfl | hmem
        · omega
        · exact hw w hmem

/-! ## Reading groups -/

theorem groups_digit (g : Groups) {c : UInt8} {d : Nat} (h : hexDigitValue c = some d)
    (hx : g.xdigits_seen < 4) (cur src : Bytes) :
    Inet.groups g cur (c :: src) =
      Inet.groups { g with xdigits_seen := g.xdigits_seen + 1, val := 16 * g.val + d } cur src := by
  simp only [Inet.groups, h, if_neg (Nat.ne_of_lt hx)]

/-- The digits of a group are read as its number. -/
theorem groups_hexWord {k n : Nat} (hn : n < 16 ^ (k + 1)) (g : Groups) (hval : g.val = 0)
    (hx : g.xdigits_seen + (k + 1) ≤ 4) (cur src : Bytes) :
    ∃ j, Inet.groups g cur (hexWord n ++ src) =
      Inet.groups { g with xdigits_seen := j + 1, val := n } cur src ∧
        j + 1 ≤ g.xdigits_seen + (k + 1) := by
  induction k generalizing n src with
  | zero =>
    have h16 : n < 16 := by simpa using hn
    refine ⟨g.xdigits_seen, ?_, Nat.le_refl _⟩
    rw [hexWord_of_lt h16, List.singleton_append,
      groups_digit g (hexDigitValue_hexDigit h16) (by omega), hval]
    simp
  | succ k ih =>
    by_cases h16 : n < 16
    · refine ⟨g.xdigits_seen, ?_, by omega⟩
      rw [hexWord_of_lt h16, List.singleton_append,
        groups_digit g (hexDigitValue_hexDigit h16) (by omega), hval]
      simp
    · have hdiv : n / 16 < 16 ^ (k + 1) := by
        rw [Nat.pow_succ] at hn
        omega
      obtain ⟨j, hj, hle⟩ := ih hdiv (by omega) (hexDigit (n % 16) :: src)
      refine ⟨j + 1, ?_, by omega⟩
      rw [hexWord_of_le (by omega), List.append_assoc, List.singleton_append, hj,
        groups_digit _ (hexDigitValue_hexDigit (Nat.mod_lt n (by omega))) (by dsimp only; omega)]
      have hsum : 16 * (n / 16) + n % 16 = n := Nat.div_add_mod n 16
      dsimp only
      rw [hsum]

/-- The groups read so far; no group is begun. -/
def read (out : Bytes) (colonp : Option Nat) : Groups := { out := out, colonp := colonp }

theorem groups_colon (g : Groups) (cur : Bytes) {src : Bytes} (hx : g.xdigits_seen ≠ 0) (hsrc : src ≠ [])
    (hout : g.out.length + 2 ≤ 16) :
    Inet.groups g cur (COLON :: src) =
      Inet.groups (read (g.out ++ [UInt8.ofNat (g.val / 256), UInt8.ofNat (g.val % 256)]) g.colonp)
        src src := by
  have hdigit : hexDigitValue COLON = none := by decide
  have hcolon : COLON = Inet.COLON := rfl
  have hflush : g.flush = some (read (g.out ++ [UInt8.ofNat (g.val / 256), UInt8.ofNat (g.val % 256)])
      g.colonp) := if_neg (by omega)
  simp only [Inet.groups, hdigit, if_pos hcolon, if_neg hx, if_neg hsrc, hflush]

/-- A group with its colon. -/
theorem groups_word {w : Nat} (hw : w < 65536) {out : Bytes} (hout : out.length + 2 ≤ 16)
    (colonp : Option Nat) (cur : Bytes) {src : Bytes} (hsrc : src ≠ []) :
    Inet.groups (read out colonp) cur (hexWord w ++ COLON :: src) =
      Inet.groups (read (out ++ bytesOf [w]) colonp) src src := by
  obtain ⟨j, hj, -⟩ := groups_hexWord (k := 3) (by simpa using hw) (read out colonp) rfl
    (by simp [read]) cur (COLON :: src)
  rw [hj, groups_colon _ cur (by simp) hsrc hout]
  rfl

/-- The second colon of `::`. -/
theorem groups_gap (out : Bytes) (cur src : Bytes) :
    Inet.groups (read out none) cur (COLON :: src) =
      Inet.groups (read out (some out.length)) src src := by
  have hdigit : hexDigitValue COLON = none := by decide
  have hcolon : COLON = Inet.COLON := rfl
  simp only [Inet.groups, hdigit, if_pos hcolon, read, if_true, Option.isSome_none,
    Bool.false_eq_true, if_false]

/-! ## Sequences of groups -/

theorem joined_cons (w v : Nat) (ws : List Nat) :
    Dissect.groups (w :: v :: ws) = hexWord w ++ COLON :: Dissect.groups (v :: ws) := by
  simp [Dissect.groups, List.intercalate]

theorem joined_singleton (w : Nat) : Dissect.groups [w] = hexWord w := by
  simp [Dissect.groups, List.intercalate]

theorem joined_nil : Dissect.groups [] = [] := rfl

theorem joined_ne_nil {ws : List Nat} (h : ws ≠ []) : Dissect.groups ws ≠ [] := by
  rcases ws with _ | ⟨w, _ | ⟨v, ws⟩⟩
  · exact absurd rfl h
  · rw [joined_singleton]
    exact hexWord_ne_nil w
  · rw [joined_cons]
    simp

/-- **The last groups.** They are read up to the end of the text. -/
theorem groups_last {ws : List Nat} (hw : ∀ w ∈ ws, w < 65536) {out : Bytes}
    (hout : out.length + 2 * ws.length ≤ 16) (colonp : Option Nat) (cur : Bytes) :
    (Inet.groups (read out colonp) cur (Dissect.groups ws)).bind Groups.expand =
      (read (out ++ bytesOf ws) colonp).expand := by
  induction ws generalizing out cur with
  | nil => simp [joined_nil, Inet.groups, bytesOf]
  | cons w ws ih =>
    have hlt := hw w (by simp)
    cases ws with
    | nil =>
      obtain ⟨j, hj, -⟩ := groups_hexWord (k := 3) (by simpa using hlt) (read out colonp) rfl
        (by simp [read]) cur []
      rw [List.append_nil] at hj
      rw [joined_singleton, hj, Inet.groups, Option.bind_some]
      have hflush : Groups.flush { read out colonp with xdigits_seen := j + 1, val := w } =
          some (read (out ++ bytesOf [w]) colonp) := if_neg (by simpa [read] using hout)
      rw [Groups.expand, if_pos (Nat.succ_pos j), hflush]
      rfl
    | cons v ws =>
      simp only [List.length_cons] at hout
      rw [joined_cons, groups_word hlt (by omega) colonp cur (joined_ne_nil (by simp)),
        ih (fun u hu => hw u (by simp [hu])) (by simp [length_bytesOf]; omega),
        List.append_assoc, ← bytesOf_append, List.singleton_append]

/-- **The first groups**, with `::` behind them. -/
theorem groups_first {ws : List Nat} (hne : ws ≠ []) (hw : ∀ w ∈ ws, w < 65536) {out : Bytes}
    (hout : out.length + 2 * ws.length ≤ 16) (cur rest : Bytes) :
    Inet.groups (read out none) cur (Dissect.groups ws ++ COLON :: COLON :: rest) =
      Inet.groups (read (out ++ bytesOf ws) (some (out ++ bytesOf ws).length)) rest rest := by
  induction ws generalizing out cur with
  | nil => exact absurd rfl hne
  | cons w ws ih =>
    have hlt := hw w (by simp)
    cases ws with
    | nil =>
      simp only [List.length_cons, List.length_nil] at hout
      rw [joined_singleton, groups_word hlt (by omega) none cur (by simp), groups_gap]
    | cons v ws =>
      simp only [List.length_cons] at hout
      rw [joined_cons, List.append_assoc, List.cons_append,
        groups_word hlt (by omega) none cur (by simp),
        ih (by simp) (fun u hu => hw u (by simp [hu])) (by simp [length_bytesOf]; omega),
        List.append_assoc, ← bytesOf_append, List.singleton_append]

/-! ## Dotted quads -/

theorem octet_decimal (b : UInt8) : octet (decimal b.toNat) = some b := by
  have hall : ∀ n < 256, octet (decimal n) = some (UInt8.ofNat n) := by decide +kernel
  rw [hall b.toNat b.toNat_lt, UInt8.ofNat_toNat]

theorem dot_not_mem_decimal (n : Nat) : Inet.DOT ∉ decimal n := not_mem_decimal (by decide) n

theorem inet_ntop4_eq (a b c d : UInt8) : inet_ntop4 [a, b, c, d] =
    decimal a.toNat ++ Inet.DOT :: (decimal b.toNat ++ Inet.DOT :: (decimal c.toNat ++
      Inet.DOT :: decimal d.toNat)) := by
  simp [inet_ntop4, List.intercalate]
  rfl

theorem fields_inet_ntop4 (a b c d : UInt8) : Lines.split Inet.DOT (inet_ntop4 [a, b, c, d]) =
    ([decimal a.toNat, decimal b.toNat, decimal c.toNat], decimal d.toNat) := by
  rw [inet_ntop4_eq, Lines.split_line_append _ _ _ (dot_not_mem_decimal _),
    Lines.split_line_append _ _ _ (dot_not_mem_decimal _),
    Lines.split_line_append _ _ _ (dot_not_mem_decimal _),
    Lines.split_of_not_mem _ _ (dot_not_mem_decimal _)]

theorem exists_octets {q : Bytes} (h : q.length = 4) : ∃ a b c d, q = [a, b, c, d] := by
  rcases q with _ | ⟨a, _ | ⟨b, _ | ⟨c, _ | ⟨d, _ | ⟨e, q⟩⟩⟩⟩⟩ <;> simp at h ⊢

/-- **IPv4.** -/
theorem inet_pton4_inet_ntop4 {q : Bytes} (h : q.length = 4) : inet_pton4 (inet_ntop4 q) = some q := by
  obtain ⟨a, b, c, d, rfl⟩ := exists_octets h
  simp [inet_pton4, fields_inet_ntop4, octet_decimal]

theorem groups_digits {ds : Bytes} (hds : ∀ c ∈ ds, isDigit c = true) (g : Groups)
    (hx : g.xdigits_seen + ds.length ≤ 4) (cur src : Bytes) :
    ∃ j v, Inet.groups g cur (ds ++ src) =
      Inet.groups { g with xdigits_seen := j, val := v } cur src := by
  induction ds generalizing g with
  | nil => exact ⟨g.xdigits_seen, g.val, rfl⟩
  | cons c ds ih =>
    have hc : hexDigitValue c = some (c.toNat - 48) := if_pos (hds c (by simp))
    simp only [List.length_cons] at hx
    obtain ⟨j, v, hj⟩ := ih (fun d hd => hds d (by simp [hd]))
      { g with xdigits_seen := g.xdigits_seen + 1, val := 16 * g.val + (c.toNat - 48) }
      (by dsimp only; omega)
    exact ⟨j, v, by rw [List.cons_append, groups_digit g hc (by omega), hj]⟩

/-- **An embedded IPv4 address** at the end of the text. -/
theorem groups_quad {q : Bytes} (h : q.length = 4) {out : Bytes} (hout : out.length + 4 ≤ 16)
    (colonp : Option Nat) :
    (Inet.groups (read out colonp) (inet_ntop4 q) (inet_ntop4 q)).bind Groups.expand =
      (read (out ++ q) colonp).expand := by
  have hpton := inet_pton4_inet_ntop4 h
  obtain ⟨a, b, c, d, rfl⟩ := exists_octets h
  have ha := a.toNat_lt
  have hlen : (decimal a.toNat).length ≤ 3 := length_decimal_le (by omega) (by omega)
  have hdig : ∀ c ∈ decimal a.toNat, isDigit c = true := fun c hc => isDigit_of_mem_decimal hc
  obtain ⟨j, v, hj⟩ := groups_digits hdig (read out colonp)
    (by simp only [read]; omega) (inet_ntop4 [a, b, c, d])
    (Inet.DOT :: (decimal b.toNat ++ Inet.DOT :: (decimal c.toNat ++ Inet.DOT :: decimal d.toNat)))
  rw [← inet_ntop4_eq] at hj
  have hdigit : hexDigitValue Inet.DOT = none := by decide
  have hcolon : Inet.DOT ≠ Inet.COLON := by decide
  have hfit : True ∧ (read out colonp).out.length + 4 ≤ 16 := ⟨trivial, hout⟩
  rw [hj, Inet.groups]
  simp only [hdigit, if_neg hcolon, if_pos hfit, hpton, Option.map_some, Option.bind_some]
  rfl

/-! ## Runs of zeros -/

theorem zeroRun_spec (ws : List Nat) :
    ws = List.replicate (zeroRun ws) 0 ++ ws.drop (zeroRun ws) := by
  have htake : ws.takeWhile (· = 0) = List.replicate (zeroRun ws) 0 := by
    refine List.eq_replicate_iff.mpr ⟨rfl, fun w hw => ?_⟩
    simpa using List.mem_takeWhile_imp hw
  conv_lhs => rw [← List.take_append_drop (zeroRun ws) ws]
  rw [← htake, zeroRun, ← List.prefix_iff_eq_take.mp (List.takeWhile_prefix _)]

/-- A run that was found: the groups before it, zeros, and the groups behind it. -/
theorem longestRun_spec (i : Nat) (ws : List Nat) (h : 0 < (longestRun i ws).2) :
    ∃ pre post, ws = pre ++ List.replicate (longestRun i ws).2 0 ++ post ∧
      (longestRun i ws).1 = i + pre.length := by
  induction ws generalizing i with
  | nil => simp [longestRun] at h
  | cons w ws ih =>
    by_cases hlong : zeroRun (w :: ws) ≥ (longestRun (i + 1) ws).2 ∧ zeroRun (w :: ws) > 0
    · have hrun : longestRun i (w :: ws) = (i, zeroRun (w :: ws)) := if_pos hlong
      rw [hrun]
      exact ⟨[], (w :: ws).drop (zeroRun (w :: ws)), by simpa using zeroRun_spec (w :: ws), rfl⟩
    · have hrun : longestRun i (w :: ws) = longestRun (i + 1) ws := if_neg hlong
      rw [hrun] at h ⊢
      obtain ⟨pre, post, hws, hbase⟩ := ih (i + 1) h
      refine ⟨w :: pre, post, ?_, ?_⟩
      · conv_lhs => rw [hws]
        rfl
      · rw [hbase, List.length_cons]
        omega

/-! ## Whole addresses -/

/-- `::` at the start. -/
theorem inet_pton6_gap (rest : Bytes) : inet_pton6 (COLON :: COLON :: rest) =
    (Inet.groups (read [] (some 0)) rest rest).bind Groups.expand := by
  have hgap := groups_gap [] (COLON :: rest) rest
  have hcolon : COLON = Inet.COLON := rfl
  have hhead : (COLON :: rest).head? = some Inet.COLON := rfl
  rw [inet_pton6, if_pos hcolon, if_pos hhead]
  exact congrArg (·.bind Groups.expand) hgap

/-- A group at the start. -/
theorem inet_pton6_word {ws : List Nat} (hne : ws ≠ []) (t : Bytes) :
    inet_pton6 (Dissect.groups ws ++ t) =
      (Inet.groups (read [] none) (Dissect.groups ws ++ t) (Dissect.groups ws ++ t)).bind
        Groups.expand := by
  obtain ⟨w, vs, rfl⟩ := List.exists_cons_of_ne_nil hne
  obtain ⟨c, cs, hc⟩ := List.exists_cons_of_ne_nil (hexWord_ne_nil w)
  obtain ⟨u, hu⟩ : ∃ u, Dissect.groups (w :: vs) ++ t = c :: u := by
    cases vs with
    | nil => exact ⟨cs ++ t, by rw [joined_singleton, hc, List.cons_append]⟩
    | cons v vs => exact ⟨_, by rw [joined_cons, hc, List.cons_append, List.cons_append]⟩
  have hcolon : c ≠ Inet.COLON := by
    rintro rfl
    have := hexDigitValue_of_mem (n := w) (c := Inet.COLON) (by simp [hc])
    exact absurd this (by decide)
  rw [hu]
  exact if_neg hcolon

theorem expand_full {a : Bytes} (h : a.length = 16) : (read a none).expand = some a := by
  simp [Groups.expand, read, h]

theorem expand_gap {pre post : List Nat} {len : Nat} (h : pre.length + len + post.length = 8)
    (hlen : 0 < len) :
    (read (bytesOf pre ++ bytesOf post) (some (bytesOf pre).length)).expand =
      some (bytesOf (pre ++ List.replicate len 0 ++ post)) := by
  have htotal : (bytesOf pre ++ bytesOf post).length = 16 - 2 * len := by
    rw [List.length_append, length_bytesOf, length_bytesOf]
    omega
  have hne : ¬ (bytesOf pre ++ bytesOf post).length = 16 := by omega
  have hzeros : 16 - (bytesOf pre ++ bytesOf post).length = 2 * len := by omega
  have hexp : (read (bytesOf pre ++ bytesOf post) (some (bytesOf pre).length)).expand =
      some ((bytesOf pre ++ bytesOf post).take (bytesOf pre).length ++
        List.replicate (16 - (bytesOf pre ++ bytesOf post).length) 0 ++
          (bytesOf pre ++ bytesOf post).drop (bytesOf pre).length) := if_neg hne
  rw [hexp, hzeros, List.take_left, List.drop_left, bytesOf_append, bytesOf_append,
    bytesOf_replicate]

/-- The three forms of a text: all groups; zeros and an embedded IPv4 address; and the groups
before and behind a run of zeros. -/
theorem inet_ntop6_cases (a : Bytes) :
    ((longestRun 0 (words a)).2 < 2 ∧ inet_ntop6 a = Dissect.groups (words a)) ∨
    (∃ pre post len, 2 ≤ len ∧ words a = pre ++ List.replicate len 0 ++ post ∧
      ((pre = [] ∧ len = 6 ∧ inet_ntop6 a = COLON :: COLON :: inet_ntop4 (a.drop 12)) ∨
        (pre = [] ∧ len = 5 ∧ post.head? = some 0xffff ∧
          inet_ntop6 a = COLON :: COLON :: (hexWord 0xffff ++ COLON :: inet_ntop4 (a.drop 12))) ∨
        inet_ntop6 a = Dissect.groups pre ++ COLON :: COLON :: Dissect.groups post)) := by
  have htext : inet_ntop6 a = if (longestRun 0 (words a)).2 < 2 then Dissect.groups (words a)
      else if (longestRun 0 (words a)).1 = 0 ∧ ((longestRun 0 (words a)).2 = 6 ∨
        ((longestRun 0 (words a)).2 = 5 ∧ (words a)[5]? = some 0xffff)) then
        ascii "::" ++ (if (longestRun 0 (words a)).2 = 5 then ascii "ffff:" else []) ++
          inet_ntop4 (a.drop 12)
      else Dissect.groups ((words a).take (longestRun 0 (words a)).1) ++ ascii "::" ++
        Dissect.groups ((words a).drop ((longestRun 0 (words a)).1 + (longestRun 0 (words a)).2)) := rfl
  have hgap : ascii "::" = [COLON, COLON] := by decide
  have hffff : ascii "ffff:" = hexWord 0xffff ++ [COLON] := by decide
  by_cases hshort : (longestRun 0 (words a)).2 < 2
  · exact .inl ⟨hshort, by rw [htext, if_pos hshort]⟩
  · obtain ⟨pre, post, hws, hbase⟩ := longestRun_spec 0 (words a) (by omega)
    rw [if_neg hshort] at htext
    generalize (longestRun 0 (words a)).1 = base at htext hbase
    generalize (longestRun 0 (words a)).2 = len at htext hws hshort
    refine .inr ⟨pre, post, len, by omega, hws, ?_⟩
    split at htext
    next hquad =>
      obtain ⟨h0, hlen⟩ := hquad
      have hpre : pre = [] := List.eq_nil_of_length_eq_zero (by omega)
      subst hpre
      rcases hlen with rfl | ⟨rfl, h5⟩
      · exact .inl ⟨rfl, rfl, by simpa [hgap] using htext⟩
      · refine .inr (.inl ⟨rfl, rfl, ?_, by simpa [hgap, hffff] using htext⟩)
        rw [hws] at h5
        simpa [List.getElem?_append, List.head?_eq_getElem?] using h5
    next =>
      refine .inr (.inr ?_)
      rw [htext, hws, hbase, hgap]
      simp

/-- **IPv6.** -/
theorem inet_pton6_inet_ntop6 {a : Bytes} (h : a.length = 16) :
    inet_pton6 (inet_ntop6 a) = some a := by
  obtain ⟨hbytes, hlen, hlt⟩ := words_spec (n := 8) h
  rcases inet_ntop6_cases a with ⟨-, htext⟩ | ⟨pre, post, len, h2, hws, hform⟩
  · have hne : words a ≠ [] := fun e => by simp [e] at hlen
    have hread := inet_pton6_word hne []
    rw [List.append_nil] at hread
    rw [htext, hread, groups_last hlt (by simp [hlen]), List.nil_append, hbytes, expand_full h]
  · have htotal : pre.length + len + post.length = 8 := by
      rw [hws] at hlen
      simpa [Nat.add_assoc] using hlen
    have hexpand := expand_gap htotal (by omega)
    rw [← hws, hbytes] at hexpand
    have hpre : ∀ w ∈ pre, w < 65536 := fun w hw => hlt w (by rw [hws]; simp [hw])
    have hpost : ∀ w ∈ post, w < 65536 := fun w hw => hlt w (by rw [hws]; simp [hw])
    have hquad : (a.drop 12).length = 4 := by simp [h]
    have ha (hnil : pre = []) : a = List.replicate (2 * len) 0 ++ bytesOf post := by
      rw [← hbytes, hws, hnil, List.nil_append, bytesOf_append, bytesOf_replicate]
    rcases hform with ⟨rfl, rfl, htext⟩ | ⟨rfl, rfl, hffff, htext⟩ | htext
    · have hdrop : a.drop 12 = bytesOf post := by
        rw [ha rfl]
        rfl
      rw [htext, inet_pton6_gap, groups_quad hquad (by simp), hdrop]
      exact hexpand
    · obtain ⟨v, post, rfl⟩ : ∃ v vs, post = v :: vs := by
        cases post with
        | nil => cases hffff
        | cons v vs => exact ⟨v, vs, rfl⟩
      obtain rfl : v = 0xffff := by simpa using hffff
      have hdrop : a.drop 12 = bytesOf post := by
        rw [ha rfl]
        rfl
      have hne : inet_ntop4 (a.drop 12) ≠ [] := by
        intro e
        have := inet_pton4_inet_ntop4 hquad
        rw [e] at this
        cases this
      rw [htext, inet_pton6_gap, groups_word (by decide) (by simp) (some 0) _ hne,
        groups_quad hquad (by simp [length_bytesOf]), hdrop]
      exact hexpand
    · by_cases hnil : pre = []
      · subst hnil
        rw [htext, joined_nil, List.nil_append, inet_pton6_gap,
          groups_last hpost (by simp; omega)]
        exact hexpand
      · rw [htext, inet_pton6_word hnil, groups_first hnil hpre (by simp; omega),
          groups_last hpost (by simp [length_bytesOf]; omega)]
        exact hexpand

theorem inet_ntop6_inj {a b : Bytes} (ha : a.length = 16) (hb : b.length = 16) :
    inet_ntop6 a = inet_ntop6 b ↔ a = b := by
  constructor
  · intro h
    have hread := inet_pton6_inet_ntop6 ha
    rw [h, inet_pton6_inet_ntop6 hb] at hread
    exact (Option.some.inj hread).symm
  · rintro rfl
    rfl

/-! ## Forms -/

/-- Two neighbouring groups are zero. -/
def hasGap : List Nat → Bool
  | w :: v :: ws => (w = 0 && v = 0) || hasGap (v :: ws)
  | _ => false

theorem longestRun_lt_two (i : Nat) (ws : List Nat) : (longestRun i ws).2 < 2 ↔ hasGap ws = false := by
  induction ws generalizing i with
  | nil => simp [longestRun, hasGap]
  | cons w ws ih =>
    have hmax : (longestRun i (w :: ws)).2 < 2 ↔
        zeroRun (w :: ws) < 2 ∧ (longestRun (i + 1) ws).2 < 2 := by
      by_cases hlong : zeroRun (w :: ws) ≥ (longestRun (i + 1) ws).2 ∧ zeroRun (w :: ws) > 0
      · have hrun : longestRun i (w :: ws) = (i, zeroRun (w :: ws)) := if_pos hlong
        rw [hrun]
        dsimp only
        omega
      · have hrun : longestRun i (w :: ws) = longestRun (i + 1) ws := if_neg hlong
        rw [hrun]
        omega
    rw [hmax, ih]
    cases ws with
    | nil =>
      by_cases hw : w = 0 <;> simp [zeroRun, hasGap, hw]
    | cons v ws =>
      by_cases hw : w = 0
      · by_cases hv : v = 0
        · subst hw hv
          have hrun : zeroRun (0 :: 0 :: ws) = zeroRun ws + 2 := by simp [zeroRun]
          have hgap : hasGap (0 :: 0 :: ws) = true := by simp [hasGap]
          rw [hrun, hgap]
          exact iff_of_false (fun h => by omega) nofun
        · simp [zeroRun, hasGap, hw, hv]
      · simp [zeroRun, hasGap, hw]

/-- An address without neighbouring zero groups is written with all its groups. -/
theorem inet_ntop6_full {a : Bytes} (h : hasGap (words a) = false) :
    inet_ntop6 a = Dissect.groups (words a) := by
  have hrun := (longestRun_lt_two 0 (words a)).mpr h
  exact if_pos hrun

/-- With neighbouring zero groups there is a `::`. -/
theorem inet_ntop6_short {a : Bytes} (h : hasGap (words a) = true) :
    ∃ s t, inet_ntop6 a = s ++ COLON :: COLON :: t := by
  rcases inet_ntop6_cases a with ⟨hrun, -⟩ | ⟨pre, post, len, -, -, hform⟩
  · rw [(longestRun_lt_two 0 _).mp hrun] at h
    cases h
  · rcases hform with ⟨-, -, htext⟩ | ⟨-, -, -, htext⟩ | htext
    · exact ⟨[], _, htext⟩
    · exact ⟨[], _, htext⟩
    · exact ⟨_, _, htext⟩

/-- The text begins with the first group and a colon, or with `::` if that group is zero. -/
theorem inet_ntop6_head {a : Bytes} {w v : Nat} {ws : List Nat} (h : words a = w :: v :: ws) :
    (∃ t, inet_ntop6 a = hexWord w ++ COLON :: t) ∨
      (w = 0 ∧ ∃ t, inet_ntop6 a = COLON :: COLON :: t) := by
  rcases inet_ntop6_cases a with ⟨-, htext⟩ | ⟨pre, post, len, h2, hws, hform⟩
  · exact .inl ⟨_, by rw [htext, h, joined_cons]⟩
  · have hzero (hnil : pre = []) : w = 0 := by
      obtain ⟨n, rfl⟩ : ∃ n, len = n + 1 := ⟨len - 1, by omega⟩
      rw [hnil, h] at hws
      exact (List.cons.inj hws).1
    rcases hform with ⟨hnil, -, htext⟩ | ⟨hnil, -, -, htext⟩ | htext
    · exact .inr ⟨hzero hnil, _, htext⟩
    · exact .inr ⟨hzero hnil, _, htext⟩
    · rcases pre with _ | ⟨u, _ | ⟨u', pre⟩⟩
      · exact .inr ⟨hzero rfl, _, htext⟩
      · rw [h] at hws
        obtain rfl : w = u := (List.cons.inj hws).1
        exact .inl ⟨_, by rw [htext, joined_singleton]⟩
      · rw [h] at hws
        obtain rfl : w = u := (List.cons.inj hws).1
        exact .inl ⟨_, by rw [htext, joined_cons, List.append_assoc, List.cons_append]⟩

/-- Only digits and dots stand in a text that is read as an IPv4 address. -/
theorem inet_pton4_chars {s q : Bytes} (h : inet_pton4 s = some q) :
    ∀ c ∈ s, isDigit c = true ∨ c = Inet.DOT := by
  have hoctet {t : Bytes} {b : UInt8} (ht : octet t = some b) : ∀ c ∈ t, isDigit c = true := by
    unfold octet at ht
    split at ht
    next hd => exact List.all_eq_true.mp hd.2.1
    · cases ht
  have hjoin := (Lines.split_spec Inet.DOT s).1
  simp only [inet_pton4] at h
  split at h
  next a b c hfields =>
    simp only [Option.bind_eq_bind, Option.bind_eq_some_iff, Option.some.injEq] at h
    obtain ⟨_, ha, _, hb, _, hc, _, hd, -⟩ := h
    rw [hfields] at hjoin
    intro x hx
    rw [hjoin] at hx
    simp only [Lines.join_cons, Lines.join_nil, List.append_assoc, List.cons_append, List.mem_append,
      List.mem_cons, List.nil_append] at hx
    rcases hx with hx | rfl | hx | rfl | hx | rfl | hx
    · exact .inl (hoctet ha x hx)
    · exact .inr rfl
    · exact .inl (hoctet hb x hx)
    · exact .inr rfl
    · exact .inl (hoctet hc x hx)
    · exact .inr rfl
    · exact .inl (hoctet hd x hx)
  · cases h

/-- No IPv6 text is an IPv4 text. -/
theorem inet_pton4_inet_ntop6 {a : Bytes} (h : a.length = 16) : inet_pton4 (inet_ntop6 a) = none := by
  cases hq : inet_pton4 (inet_ntop6 a) with
  | none => rfl
  | some q =>
    have := inet_pton4_chars hq COLON (Dissect.colon_mem_ntop6 h)
    exact absurd this (by decide)

end TrafficMonitor.AddressText
