import TrafficMonitor.Server.CborItems
import TrafficMonitor.Server.CborReads
import TrafficMonitor.Server.WebAuthn

/-!
# COSE keys

The lookups of `cbor::Val` by an integer, and the key that `extractCoseP256` accepts. A key of a
map is compared after a cast to 64 signed bits, so that a number beyond them aliases another one.

Proved here:

* `entryInt_eq_lookup_iff`: the entry found is the first one with the key exactly if no alias
  stands before it;
* `carries_iff`: the accepted keys that carry the required labels and values;
* `cbor_iff`: what a run of the parser over an input gives.
-/

namespace TrafficMonitor.Cbor

open WebAuthn

/-! ## Numbers -/

/-- The number that a value is. -/
def Val.int? : Val → Option Int
  | .uint u => some u
  | .nint u => some (-1 - u)
  | _ => none

/-- A number beyond 64 signed bits that the cast turns into `key`. -/
def Val.Aliases (key : Int) : Val → Prop
  | .uint u => 2 ^ 63 ≤ u ∧ (u : Int) - 2 ^ 64 = key
  | .nint u => 2 ^ 63 ≤ u ∧ 2 ^ 64 - 1 - (u : Int) = key
  | _ => False

def Val.entries : Val → List (Val × Val)
  | .map items => items
  | _ => []

/-- The comparison of `get`. -/
def Val.equals (key : Int) : Val → Bool
  | .uint u => int64 u = key
  | .nint u => -1 - int64 u = key
  | _ => false

/-- The entry whose value `get` returns. -/
def Val.entryInt (key : Int) (v : Val) : Option (Val × Val) := v.entries.find? (·.1.equals key)

/-- The first entry whose key is the number. -/
def Val.lookup (key : Int) (v : Val) : Option (Val × Val) :=
  v.entries.find? (·.1.int? = some key)

/-- No alias of the key stands before the first entry with the key. -/
def Unaliased (key : Int) : List (Val × Val) → Prop
  | [] => True
  | e :: entries => e.1.int? = some key ∨ ¬e.1.Aliases key ∧ Unaliased key entries

theorem getInt_eq (key : Int) (v : Val) : v.getInt key = (v.entryInt key).map Prod.snd := by
  cases v with
  | map items =>
    rw [Val.getInt, Val.entryInt, Val.entries]
    congr 2
  | _ => rfl

section Key

variable {key : Int} (hlow : -2 ^ 63 ≤ key) (hhigh : key < 2 ^ 63)

include hlow hhigh

theorem equals_iff (k : Val) : k.equals key = true ↔ k.int? = some key ∨ k.Aliases key := by
  cases k with
  | uint u =>
    have : (Val.uint u).equals key = true ↔ int64 u = key := by simp [Val.equals]
    rw [this, int64]
    simp only [Val.int?, Val.Aliases, Option.some.injEq]
    split <;> omega
  | nint u =>
    have : (Val.nint u).equals key = true ↔ -1 - int64 u = key := by simp [Val.equals]
    rw [this, int64]
    simp only [Val.int?, Val.Aliases, Option.some.injEq]
    split <;> omega
  | _ => simp [Val.equals, Val.int?, Val.Aliases]

theorem not_aliases {k : Val} (h : k.int? = some key) : ¬k.Aliases key := by
  cases k with
  | uint u =>
    simp only [Val.int?, Val.Aliases, Option.some.injEq] at h ⊢
    omega
  | nint u =>
    simp only [Val.int?, Val.Aliases, Option.some.injEq] at h ⊢
    omega
  | _ => cases h

/-- **Lookups.** -/
theorem entryInt_eq_lookup_iff (v : Val) :
    v.entryInt key = v.lookup key ↔ Unaliased key v.entries := by
  rw [Val.entryInt, Val.lookup]
  generalize v.entries = entries
  induction entries with
  | nil => simp [Unaliased]
  | cons e entries ih =>
    have he := equals_iff hlow hhigh e.1
    rw [Unaliased, ← ih, List.find?_cons, List.find?_cons]
    by_cases hkey : e.1.int? = some key
    · simp [he.mpr (.inl hkey), hkey]
    · by_cases halias : e.1.Aliases key
      · -- the alias is found, and its key is not the key of what is looked for
        simp only [he.mpr (.inr halias), hkey, halias, decide_false, not_true_eq_false, false_and,
          or_self, iff_false]
        intro hfind
        have := List.find?_some hfind.symm
        simp [hkey] at this
      · have : e.1.equals key = false := by
          rw [Bool.eq_false_iff]
          exact fun h => (he.mp h).elim hkey halias
        simp [this, hkey, halias]

theorem int_of_entryInt {v : Val} {e : Val × Val} (h : v.entryInt key = some e) :
    e.1.int? = some key ↔ Unaliased key v.entries := by
  rw [Val.entryInt] at h
  generalize v.entries = entries at h ⊢
  induction entries with
  | nil => cases h
  | cons e' entries ih =>
    have he := equals_iff hlow hhigh e'.1
    rw [List.find?_cons] at h
    rw [Unaliased]
    split at h
    · rename_i heq
      cases h
      rcases he.mp heq with hkey | halias
      · simp [hkey]
      · simp [halias]
    · rename_i hne
      rw [ih h]
      have hn := not_or.mp (mt he.mpr (by simp [hne]))
      simp [hn]

/-- The lookup finds an entry exactly if there is one, or if there is no alias. -/
theorem isSome_getInt_iff (v : Val) :
    ((v.getInt key).isSome = true ↔ ∃ e ∈ v.entries, e.1.int? = some key) ↔
      (∃ e ∈ v.entries, e.1.int? = some key) ∨ ∀ e ∈ v.entries, ¬e.1.Aliases key := by
  have hsome : (v.getInt key).isSome = true ↔
      ∃ e ∈ v.entries, e.1.int? = some key ∨ e.1.Aliases key := by
    rw [getInt_eq, Option.isSome_map, Val.entryInt, List.find?_isSome]
    simp only [equals_iff hlow hhigh]
  rw [hsome]
  constructor
  · intro h
    by_cases hkey : ∃ e ∈ v.entries, e.1.int? = some key
    · exact .inl hkey
    · exact .inr fun e he halias => hkey (h.mp ⟨e, he, .inr halias⟩)
  · rintro (hkey | hnone)
    · obtain ⟨e, he, hk⟩ := hkey
      exact iff_of_true ⟨e, he, .inl hk⟩ ⟨e, he, hk⟩
    · constructor
      · rintro ⟨e, he, hk | halias⟩
        · exact ⟨e, he, hk⟩
        · exact absurd halias (hnone e he)
      · rintro ⟨e, he, hk⟩
        exact ⟨e, he, .inl hk⟩

/-- The entry that is taken for the label has it, and has a value with the property. -/
def Taken (v : Val) (label : Int) (P : Val → Prop) : Prop :=
  ∃ e, v.entryInt label = some e ∧ e.1.int? = some label ∧ P e.2

theorem taken_iff {v : Val} {e : Val × Val} {P : Val → Prop} (h : v.entryInt key = some e) :
    Taken v key P ↔ Unaliased key v.entries ∧ P e.2 := by
  rw [← int_of_entryInt hlow hhigh h]
  constructor
  · rintro ⟨e', he', hkey, hP⟩
    cases h.symm.trans he'
    exact ⟨hkey, hP⟩
  · rintro ⟨hkey, hP⟩
    exact ⟨e, h, hkey, hP⟩

end Key

/-! ## The accepted keys -/

/-- The entries of an accepted key carry the required labels and values. -/
structure Carries (v : Val) (x y : Bytes) : Prop where
  kty : Taken v 1 (·.int? = some 2)
  alg : Taken v 3 (·.int? = some (-7))
  crv : Taken v (-1) (·.int? = some 1)
  x : Taken v (-2) (· = .bytes x)
  y : Taken v (-3) (· = .bytes y)

/-- None of the labels is aliased, nor is the algorithm. -/
structure Clear (v : Val) : Prop where
  labels : ∀ label ∈ [1, 3, -1, -2, -3], Unaliased label v.entries
  alg : ∀ e, v.lookup 3 = some e → ¬e.2.Aliases (-7)

theorem entryInt_of_getInt {v w : Val} {key : Int} (h : v.getInt key = some w) :
    ∃ e, v.entryInt key = some e ∧ e.2 = w := by
  rw [getInt_eq] at h
  exact Option.map_eq_some_iff.mp h

theorem equals_of_asInt {key : Int} (h0 : key ≠ 0) {v : Val} (h : v.asInt = key) :
    v.equals key = true := by
  cases v with
  | uint u => exact decide_eq_true h
  | nint u => exact decide_eq_true h
  | _ => exact absurd h.symm h0

/-- **Keys.** An accepted key carries what is required exactly if it has no aliases. -/
theorem carries_iff {data x y : Bytes} (h : extractCoseP256 data = some (x, y)) :
    ∃ v rest, parse maxLevels data = some (v, rest) ∧ (Carries v x y ↔ Clear v) := by
  obtain ⟨v, rest, alg, hparse, hkty, halg, hes256, hcrv, hx, hy, -⟩ := extractCoseP256_some h
  refine ⟨v, rest, hparse, ?_⟩
  obtain ⟨e₁, he₁, hv₁⟩ := entryInt_of_getInt hkty
  obtain ⟨e₃, he₃, rfl⟩ := entryInt_of_getInt halg
  obtain ⟨f₁, hf₁, hw₁⟩ := entryInt_of_getInt hcrv
  obtain ⟨f₂, hf₂, hw₂⟩ := entryInt_of_getInt hx
  obtain ⟨f₃, hf₃, hw₃⟩ := entryInt_of_getInt hy
  have t₁ := taken_iff (by decide) (by decide) (P := (·.int? = some 2)) he₁
  have t₃ := taken_iff (by decide) (by decide) (P := (·.int? = some (-7))) he₃
  have u₁ := taken_iff (by decide) (by decide) (P := (·.int? = some 1)) hf₁
  have u₂ := taken_iff (by decide) (by decide) (P := (· = Val.bytes x)) hf₂
  have u₃ := taken_iff (by decide) (by decide) (P := (· = Val.bytes y)) hf₃
  have hlookup : v.entryInt 3 = v.lookup 3 ↔ Unaliased 3 v.entries :=
    entryInt_eq_lookup_iff (by decide) (by decide) v
  have hnumber : e₃.2.int? = some (-7) ∨ e₃.2.Aliases (-7) :=
    (equals_iff (by decide) (by decide) e₃.2).mp (equals_of_asInt (by decide) hes256)
  constructor
  · rintro ⟨kty, alg, crv, hx, hy⟩
    refine ⟨?_, fun e he => ?_⟩
    · simp [(t₁.mp kty).1, (t₃.mp alg).1, (u₁.mp crv).1, (u₂.mp hx).1, (u₃.mp hy).1]
    · rw [← hlookup.mpr (t₃.mp alg).1, he₃] at he
      cases he
      exact not_aliases (by decide) (by decide) (t₃.mp alg).2
  · rintro ⟨labels, hclear⟩
    have h₃ := labels 3 (by simp)
    refine ⟨t₁.mpr ⟨labels 1 (by simp), by rw [hv₁]; rfl⟩, t₃.mpr ⟨h₃, ?_⟩,
      u₁.mpr ⟨labels (-1) (by simp), by rw [hw₁]; rfl⟩, u₂.mpr ⟨labels (-2) (by simp), hw₂⟩,
      u₃.mpr ⟨labels (-3) (by simp), hw₃⟩⟩
    exact hnumber.resolve_right (hclear e₃ ((hlookup.mpr h₃).symm.trans he₃))

/-- **CBOR.** From a position the parser refuses what no item begins, and else consumes the text of
one item; its value is read exactly if only simple values are tagged. A lookup finds an entry
exactly if there is one, unless an alias is found. A key is accepted for what it carries, unless
there are aliases. -/
theorem cbor_iff (input : Input) (pos : Fin (input.data.length + 1)) (key : Int64) :
    match input.parse maxLevels pos with
    | .error stop => stop = .refused ∧
      ∀ item s rest, input.data.drop pos = s ++ rest → Encodes item s → ¬Within maxLevels item
    | .ok (v, pos') => pos < pos' ∧ pos' ≤ input.data.length ∧
      (∃ item s rest, input.data.drop pos = s ++ rest ∧ s.length = pos' - pos ∧ Encodes item s ∧
        Within maxLevels item ∧ (∀ item', Encodes item' s → item' = item) ∧
        (v = item.val ↔ item.plain = true)) ∧
      (((v.getInt key.toInt).isSome = true ↔ ∃ e ∈ v.entries, e.1.int? = some key.toInt) ↔
        (∃ e ∈ v.entries, e.1.int? = some key.toInt) ∨
          ∀ e ∈ v.entries, ¬e.1.Aliases key.toInt) ∧
      ∀ x y, extractCoseP256 (input.data.drop pos) = some (x, y) → (Carries v x y ↔ Clear v) := by
  have hpos : (pos : Nat) = input.posOf (input.data.drop pos) := by
    have := pos.isLt
    simp only [Input.posOf, List.length_drop]
    omega
  rw [hpos, Input.parse_posOf (List.drop_suffix _ _), ← hpos]
  cases hparse : parse maxLevels (input.data.drop pos) with
  | none =>
    refine ⟨rfl, fun item s rest hs he hw => ?_⟩
    have := parse_iff.mpr ⟨item, s, hs, he, hw, rfl⟩
    rw [hparse] at this
    cases this
  | some r =>
    obtain ⟨v, rest⟩ := r
    obtain ⟨hsuffix, hlt⟩ := parse_suffix hparse
    have hdrop : (input.data.drop pos).length = input.data.length - pos := List.length_drop
    have := pos.isLt
    simp only [Input.outcome, Input.posOf]
    refine ⟨by omega, by omega, ?_, ?_, fun x y hxy => ?_⟩
    · obtain ⟨item, s, hs, he, hw, hunique, hval⟩ := exists_item_of_parse hparse
      have hlen := congrArg List.length hs
      rw [List.length_append] at hlen
      exact ⟨item, s, rest, hs, by omega, he, hw, hunique, hval⟩
    · exact isSome_getInt_iff key.le_toInt key.toInt_lt v
    · obtain ⟨v', rest', hparse', hiff⟩ := carries_iff hxy
      cases hparse.symm.trans hparse'
      exact hiff

/-- A key whose algorithm is the unsigned number 2^64 − 7. -/
private def unsignedAlg : Bytes :=
  [0xa5, 1, 2, 3, 0x1b, 255, 255, 255, 255, 255, 255, 255, 0xf9, 0x20, 1, 0x21, 0x58, 32] ++
    List.replicate 32 7 ++ [0x22, 0x58, 32] ++ List.replicate 32 8

/-- A tagged number is read as no number, the label −2^64 + 1 is found for 1, and a key is accepted
for an algorithm that is not −7. -/
theorem tags_and_aliases :
    parse maxLevels [0xc0, 1] = some (.other, []) ∧
    (∃ v, parse maxLevels [0xa1, 0x3b, 255, 255, 255, 255, 255, 255, 255, 254, 2] = some (v, []) ∧
      v.getInt 1 = some (.uint 2) ∧ ∀ e ∈ v.entries, e.1.int? = some (-2 ^ 64 + 1)) ∧
    ∃ v rest, parse maxLevels unsignedAlg = some (v, rest) ∧
      extractCoseP256 unsignedAlg = some (List.replicate 32 7, List.replicate 32 8) ∧
      v.lookup 3 = some (.uint 3, .uint (2 ^ 64 - 7)) ∧
      ¬Carries v (List.replicate 32 7) (List.replicate 32 8) := by
  refine ⟨rfl, ⟨_, rfl, rfl, ?_⟩, ?_⟩
  · intro e he
    rw [List.mem_singleton.mp he]
    rfl
  · refine ⟨_, _, rfl, by decide +kernel, rfl, fun h => ?_⟩
    obtain ⟨e, he, -, hint⟩ := h.alg
    cases he
    exact absurd hint (by decide)

end TrafficMonitor.Cbor
