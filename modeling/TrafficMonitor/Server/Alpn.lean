import TrafficMonitor.Basic.Bytes

/-!
# Protocol selection in the TLS handshake

A client offers its protocols as a list of entries, each behind a byte with its length.
`selectAlpnFromClientList` walks along the list once for each protocol that it knows, and
`alpnSelectCallback` once more for the selected one. A read beyond the list is an outcome of
its own, `none`.

Proved here:

* `eq_wire_entries`: a list is its `entries`, and then nothing or a truncated entry;
* `walk_of_mem`, `walk_of_not_mem`: a walk reads within the list and finds exactly the entries;
* `selection_consistent`: what both functions choose.
-/

namespace TrafficMonitor.Alpn

def kAlpnNtmWire : Bytes := ascii "ntm-wire"
def kAlpnHttp11 : Bytes := ascii "http/1.1"

/-! ## The list -/

/-- The entries, in wire format. -/
def wire (es : List Bytes) : Bytes := es.flatMap fun e => UInt8.ofNat e.length :: e

/-- The entries of a list before the first truncated one. -/
def entries : Bytes → List Bytes
  | [] => []
  | len :: rest =>
    if rest.length < len.toNat then []
    else rest.take len.toNat :: entries (rest.drop len.toNat)
termination_by l => l.length
decreasing_by
  rw [List.length_drop, List.length_cons]
  omega

/-- An entry whose length says more than what is left. -/
def Truncated : Bytes → Prop
  | [] => False
  | len :: rest => rest.length < len.toNat

theorem eq_wire_entries (l : Bytes) :
    ∃ rest, l = wire (entries l) ++ rest ∧ (rest = [] ∨ Truncated rest) := by
  fun_induction entries l with
  | case1 => exact ⟨[], rfl, .inl rfl⟩
  | case2 len rest h => exact ⟨len :: rest, rfl, .inr h⟩
  | case3 len rest h ih =>
    obtain ⟨t, ht, hend⟩ := ih
    refine ⟨t, ?_, hend⟩
    have hlen : (rest.take len.toNat).length = len.toNat := by
      rw [List.length_take]
      omega
    have hwire : wire (rest.take len.toNat :: entries (rest.drop len.toNat)) =
        len :: (rest.take len.toNat ++ wire (entries (rest.drop len.toNat))) := by
      simp [wire, hlen]
    rw [hwire, List.cons_append, List.append_assoc, ← ht, List.take_append_drop]

/-! ## The code -/

/-- `std::memcmp(p, s.data(), s.size()) == 0` -/
def equalAt (l s : Bytes) (p : Nat) : Option Bool :=
  if p + s.length ≤ l.length then some ((l.drop p).take s.length = s) else none

/-- `while (p < end)`: the position of the first entry that is `s`. -/
def walk (l s : Bytes) (p : Nat) : Option (Option Nat) :=
  if p < l.length then
    match l[p]? with
    | none => none
    | some len =>
      let p := p + 1
      if l.length < p + len.toNat then some none
      else
        match if len.toNat = s.length then equalAt l s p else some false with
        | none => none
        | some true => some (some p)
        | some false => walk l s (p + len.toNat)
  else some none
termination_by l.length - p

def selectAlpnFromClientList (l : Bytes) : Option Bytes :=
  match walk l kAlpnNtmWire 0 with
  | none => none
  | some (some _) => some kAlpnNtmWire
  | some none =>
    match walk l kAlpnHttp11 0 with
    | none => none
    | some (some _) => some kAlpnHttp11
    | some none => some kAlpnHttp11

/-- What `*out` and `*outlen` are set to: a slice of the client's list, or a static text. -/
inductive Chosen
  | slice (p len : Nat)
  | static (s : Bytes)
  deriving DecidableEq

def alpnSelectCallback (l : Bytes) : Option Chosen :=
  match selectAlpnFromClientList l with
  | none => none
  | some selected =>
    match walk l selected 0 with
    | none => none
    | some (some p) => some (.slice p selected.length)
    | some none => some (.static kAlpnHttp11)

/-- The protocol that OpenSSL reads from the callback's answer. -/
def Chosen.text (l : Bytes) : Chosen → Bytes
  | .slice p len => (l.drop p).take len
  | .static s => s

/-! ## Walks -/

/-- The list from an entry on. -/
theorem entries_drop {l : Bytes} {p : Nat} {len : UInt8} (h : l[p]? = some len) :
    entries (l.drop p) = if l.length < p + 1 + len.toNat then []
      else (l.drop (p + 1)).take len.toNat :: entries (l.drop (p + 1 + len.toNat)) := by
  obtain ⟨hp, hlen⟩ := List.getElem?_eq_some_iff.mp h
  have hrest : (l.drop (p + 1)).length < len.toNat ↔ l.length < p + 1 + len.toNat := by
    rw [List.length_drop]
    omega
  rw [List.drop_eq_getElem_cons hp, hlen, entries, List.drop_drop]
  simp only [hrest]

/-- **A walk.** It never reads beyond the list; it finds the text if and only if it is an entry,
and then a place in the list where it stands. -/
theorem walk_spec (l s : Bytes) (p : Nat) :
    (s ∈ entries (l.drop p) ∧
        ∃ q, walk l s p = some (some q) ∧ q + s.length ≤ l.length ∧ (l.drop q).take s.length = s) ∨
      (s ∉ entries (l.drop p) ∧ walk l s p = some none) := by
  fun_induction walk l s p with
  | case1 p hp hnone =>
    rw [List.getElem?_eq_getElem hp] at hnone
    cases hnone
  | case2 p hp len hlen p' hcut =>
    rw [entries_drop hlen, if_pos hcut]
    exact .inr ⟨List.not_mem_nil, rfl⟩
  | case3 p hp len hlen p' hcut hread =>
    -- the comparison reads as many bytes as the entry has
    split at hread
    next heq =>
      unfold equalAt at hread
      split at hread
      · cases hread
      · omega
    · cases hread
  | case4 p hp len hlen p' hcut hread =>
    rw [entries_drop hlen, if_neg hcut]
    split at hread
    next heq =>
      unfold equalAt at hread
      split at hread
      next hfit =>
        have htext : (l.drop (p + 1)).take s.length = s := by simpa using hread
        refine .inl ⟨?_, p + 1, rfl, hfit, htext⟩
        rw [heq, htext]
        exact List.mem_cons_self
      · cases hread
    · cases hread
  | case5 p hp len hlen p' hcut hread ih =>
    rw [entries_drop hlen, if_neg hcut]
    have hne : s ≠ (l.drop (p + 1)).take len.toNat := by
      intro he
      have hs : s.length = len.toNat := by
        rw [he, List.length_take, List.length_drop]
        omega
      rw [dif_pos hs.symm, equalAt, if_pos (by omega)] at hread
      simp only [Option.some.injEq, decide_eq_false_iff_not] at hread
      exact hread (by rw [hs]; exact he.symm)
    simp only [List.mem_cons, hne, false_or]
    exact ih
  | case6 p hp =>
    rw [List.drop_eq_nil_of_le (Nat.not_lt.mp hp), entries]
    exact .inr ⟨List.not_mem_nil, rfl⟩

theorem walk_of_mem {l s : Bytes} (h : s ∈ entries l) :
    ∃ q, walk l s 0 = some (some q) ∧ q + s.length ≤ l.length ∧ (l.drop q).take s.length = s := by
  rcases walk_spec l s 0 with ⟨-, hfound⟩ | ⟨hnot, -⟩
  · exact hfound
  · exact absurd h hnot

theorem walk_of_not_mem {l s : Bytes} (h : s ∉ entries l) : walk l s 0 = some none := by
  rcases walk_spec l s 0 with ⟨hmem, -⟩ | ⟨-, hnone⟩
  · exact absurd hmem h
  · exact hnone

/-! ## The choice -/

/-- The preferred protocol among the entries of a list. -/
def choice (l : Bytes) : Bytes := if kAlpnNtmWire ∈ entries l then kAlpnNtmWire else kAlpnHttp11

theorem selectAlpn_eq (l : Bytes) : selectAlpnFromClientList l = some (choice l) := by
  unfold selectAlpnFromClientList choice
  by_cases hwire : kAlpnNtmWire ∈ entries l
  · obtain ⟨q, hq, -⟩ := walk_of_mem hwire
    simp only [hq, if_pos hwire]
  · simp only [walk_of_not_mem hwire, if_neg hwire]
    by_cases hhttp : kAlpnHttp11 ∈ entries l
    · obtain ⟨q, hq, -⟩ := walk_of_mem hhttp
      simp only [hq]
    · simp only [walk_of_not_mem hhttp]

/-- A protocol that was not offered is only chosen as the last resort. -/
theorem choice_of_not_mem {l : Bytes} (h : choice l ∉ entries l) : choice l = kAlpnHttp11 := by
  by_cases hwire : kAlpnNtmWire ∈ entries l
  · have hc : choice l = kAlpnNtmWire := if_pos hwire
    exact absurd (hc ▸ hwire) h
  · exact if_neg hwire

theorem callback_of_mem {l : Bytes} (h : choice l ∈ entries l) :
    ∃ p, alpnSelectCallback l = some (.slice p (choice l).length) ∧
      p + (choice l).length ≤ l.length ∧ (l.drop p).take (choice l).length = choice l := by
  obtain ⟨p, hp, hin, htext⟩ := walk_of_mem h
  refine ⟨p, ?_, hin, htext⟩
  unfold alpnSelectCallback
  simp only [selectAlpn_eq, hp]

theorem callback_of_not_mem {l : Bytes} (h : choice l ∉ entries l) :
    alpnSelectCallback l = some (.static kAlpnHttp11) := by
  unfold alpnSelectCallback
  simp only [selectAlpn_eq, walk_of_not_mem h]

/-- **Protocol selection.** Neither function reads beyond the list. The choice is `ntm-wire` if it
is among the entries before the first truncated one, and `http/1.1` otherwise; the callback
returns the same, as a slice of the list if it was offered there. An empty entry is passed over
as any other. -/
theorem selection_consistent (l : Bytes) :
    selectAlpnFromClientList l =
        some (if kAlpnNtmWire ∈ entries l then kAlpnNtmWire else kAlpnHttp11) ∧
      ∃ c, alpnSelectCallback l = some c ∧ selectAlpnFromClientList l = some (c.text l) ∧
        (c.text l ∈ entries l → ∃ p, c = .slice p (c.text l).length ∧
          p + (c.text l).length ≤ l.length) ∧
        (c.text l ∉ entries l → c = .static kAlpnHttp11) := by
  refine ⟨selectAlpn_eq l, ?_⟩
  rw [selectAlpn_eq]
  by_cases h : choice l ∈ entries l
  · obtain ⟨p, hc, hin, htext⟩ := callback_of_mem h
    have ht : (Chosen.slice p (choice l).length).text l = choice l := htext
    refine ⟨_, hc, ?_⟩
    rw [ht]
    exact ⟨rfl, fun _ => ⟨p, rfl, hin⟩, fun hnot => absurd h hnot⟩
  · have hlast := choice_of_not_mem h
    rw [hlast] at h ⊢
    refine ⟨_, callback_of_not_mem (hlast ▸ h), rfl, fun hmem => absurd hmem h, fun _ => rfl⟩

/-- An empty entry does not end the list. -/
theorem empty_entry_passed :
    kAlpnNtmWire ∉ (entries (0 :: 8 :: kAlpnNtmWire)).takeWhile (· ≠ []) ∧
      selectAlpnFromClientList (0 :: 8 :: kAlpnNtmWire) = some kAlpnNtmWire := by
  have hname : entries (8 :: kAlpnNtmWire) = [kAlpnNtmWire] := by
    have htake : kAlpnNtmWire.take (8 : UInt8).toNat = kAlpnNtmWire := by decide
    have hdrop : kAlpnNtmWire.drop (8 : UInt8).toNat = [] := by decide
    rw [entries, if_neg (by decide), htake, hdrop, entries]
  have hall : entries (0 :: 8 :: kAlpnNtmWire) = [[], kAlpnNtmWire] := by
    rw [entries, if_neg (by simp), ← hname]
    rfl
  rw [hall]
  refine ⟨by simp, ?_⟩
  rw [selectAlpn_eq, choice, hall, if_pos (by simp)]

end TrafficMonitor.Alpn
