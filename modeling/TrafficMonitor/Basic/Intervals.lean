import Mathlib.Data.List.Pairwise
import Mathlib.Data.List.Perm.Basic
import Mathlib.Order.Lattice
import Mathlib.Tactic.Common

/-!
# Lookup in sorted intervals

A sorted vector of closed intervals, that a key is looked up in by binary search. Keys are compared
by a function `lt` that orders them as a `rank` does. Proved here:

* `upperBound_append`: the binary search finds the end of the first part of a partitioned vector;
* `lookup_eq_some_iff`: in sorted and disjoint intervals the lookup finds the one interval that
  contains the key.
-/

namespace TrafficMonitor.Intervals

variable {R K L : Type*}

/-! ## Binary search -/

/-- The loop of `std::upper_bound` on the `len` elements from `first` on, at most `fuel` times;
`before r` says that the key is before `r`. -/
def upperBoundFrom (before : R → Bool) (v : List R) : Nat → Nat → Nat → Nat
  | 0, first, _ => first
  | fuel + 1, first, len =>
    if len = 0 then first
    else match v[first + len / 2]? with
      | none => first
      | some middle =>
        if before middle then upperBoundFrom before v fuel first (len / 2)
        else upperBoundFrom before v fuel (first + len / 2 + 1) (len - len / 2 - 1)

/-- The index of the first element that the key is before, in a partitioned vector. -/
def upperBound (before : R → Bool) (v : List R) : Nat :=
  upperBoundFrom before v v.length 0 v.length

theorem upperBoundFrom_append {before : R → Bool} {a b : List R}
    (ha : ∀ r ∈ a, before r = false) (hb : ∀ r ∈ b, before r = true) {fuel first len : Nat}
    (hfuel : len ≤ fuel) (hlo : first ≤ a.length) (hhi : a.length ≤ first + len)
    (hlen : first + len ≤ (a ++ b).length) :
    upperBoundFrom before (a ++ b) fuel first len = a.length := by
  induction fuel generalizing first len with
  | zero =>
    rw [upperBoundFrom]
    omega
  | succ fuel ih =>
    rw [upperBoundFrom]
    split
    · omega
    · have hmid : first + len / 2 < (a ++ b).length := by omega
      rw [List.getElem?_eq_getElem hmid]
      dsimp only
      by_cases hside : first + len / 2 < a.length
      · rw [List.getElem_append_left hside, if_neg (by simp [ha _ (List.getElem_mem hside)])]
        exact ih (by omega) (by omega) (by omega) (by omega)
      · rw [List.getElem_append_right (by omega), if_pos (hb _ (List.getElem_mem _))]
        exact ih (by omega) hlo (by omega) (by omega)

/-- **Binary search.** The search finds the point of partition. -/
theorem upperBound_append {before : R → Bool} {a b : List R}
    (ha : ∀ r ∈ a, before r = false) (hb : ∀ r ∈ b, before r = true) :
    upperBound before (a ++ b) = a.length :=
  upperBoundFrom_append ha hb (Nat.le_refl _) (Nat.zero_le _) (by simp) (by simp)

/-! ## Intervals -/

variable (lt : K → K → Bool) (start stop : R → K)

/-- The interval before the upper bound of the starts, if it contains the key. -/
def lookup (v : List R) (k : K) : Option R :=
  match upperBound (fun r => lt k (start r)) v with
  | 0 => none
  | i + 1 => (v[i]?).filter fun r => !lt k (start r) && !lt (stop r) k

variable {lt start stop} [LinearOrder L] {rank : K → L}

theorem lookup_snoc (hlt : ∀ a b, lt a b ↔ rank a < rank b) {a b : List R} {r : R} {k : K}
    (ha : ∀ s ∈ a ++ [r], rank (start s) ≤ rank k) (hb : ∀ s ∈ b, rank k < rank (start s)) :
    lookup lt start stop (a ++ [r] ++ b) k = if rank k ≤ rank (stop r) then some r else none := by
  have hbefore : upperBound (fun r => lt k (start r)) (a ++ [r] ++ b) = a.length + 1 := by
    rw [upperBound_append]
    · simp
    · intro s hs
      rw [Bool.eq_false_iff, ne_eq, hlt, not_lt]
      exact ha s hs
    · intro s hs
      exact (hlt _ _).mpr (hb s hs)
  have hstart : lt k (start r) = false := by
    rw [Bool.eq_false_iff, ne_eq, hlt, not_lt]
    exact ha r (by simp)
  rw [lookup, hbefore]
  simp only [List.append_assoc, List.singleton_append, List.getElem?_append_right (Nat.le_refl _),
    Nat.sub_self, List.getElem?_cons_zero, Option.filter_some, hstart]
  by_cases hk : rank k ≤ rank (stop r)
  · have : lt (stop r) k = false := by rwa [Bool.eq_false_iff, ne_eq, hlt, not_lt]
    simp [hk, this]
  · have : lt (stop r) k = true := by rwa [hlt, ← not_le]
    simp [hk, this]

theorem lookup_eq_none_of_lt (hlt : ∀ a b, lt a b ↔ rank a < rank b) {b : List R} {k : K}
    (hb : ∀ s ∈ b, rank k < rank (start s)) : lookup lt start stop b k = none := by
  have hbefore : upperBound (fun r => lt k (start r)) ([] ++ b) = 0 :=
    upperBound_append (by simp) fun s hs => (hlt _ _).mpr (hb s hs)
  rw [List.nil_append] at hbefore
  rw [lookup, hbefore]

/-- A vector sorted by the starts is cut by a key into what starts before it and the rest. -/
theorem exists_partition {v : List R}
    (hsorted : v.Pairwise fun r s => rank (start r) ≤ rank (start s)) (k : K) :
    ∃ a b, v = a ++ b ∧ (∀ s ∈ a, rank (start s) ≤ rank k) ∧
      ∀ s ∈ b, rank k < rank (start s) := by
  induction v with
  | nil => exact ⟨[], [], rfl, by simp, by simp⟩
  | cons r v ih =>
    obtain ⟨hr, hv⟩ := List.pairwise_cons.mp hsorted
    rcases le_or_gt (rank (start r)) (rank k) with h | h
    · obtain ⟨a, b, rfl, ha, hb⟩ := ih hv
      exact ⟨r :: a, b, rfl, by simpa [h] using ha, hb⟩
    · refine ⟨[], r :: v, rfl, by simp, fun s hs => ?_⟩
      rcases List.mem_cons.mp hs with rfl | hs
      · exact h
      · exact lt_of_lt_of_le h (hr s hs)

/-- **Lookup.** In sorted and disjoint intervals, the one that contains the key is found. -/
theorem lookup_eq_some_iff (hlt : ∀ a b, lt a b ↔ rank a < rank b) {v : List R}
    (hsorted : v.Pairwise fun r s => rank (start r) ≤ rank (start s))
    (hordered : ∀ r ∈ v, rank (start r) ≤ rank (stop r))
    (hdisjoint : v.Pairwise fun r s => ∀ k : K, ¬ ((rank (start r) ≤ rank k ∧
      rank k ≤ rank (stop r)) ∧ rank (start s) ≤ rank k ∧ rank k ≤ rank (stop s)))
    {k : K} {r : R} :
    lookup lt start stop v k = some r ↔
      r ∈ v ∧ rank (start r) ≤ rank k ∧ rank k ≤ rank (stop r) := by
  obtain ⟨a, b, rfl, ha, hb⟩ := exists_partition hsorted k
  rcases List.eq_nil_or_concat a with rfl | ⟨a, last, rfl⟩
  · rw [List.nil_append, lookup_eq_none_of_lt hlt hb]
    constructor
    · intro h
      cases h
    · rintro ⟨hr, hle, -⟩
      exact absurd (hb r hr) (not_lt.mpr hle)
  · rw [List.concat_eq_append] at *
    rw [lookup_snoc hlt ha hb]
    constructor
    · intro h
      split at h
      next hk =>
        obtain rfl := Option.some.inj h
        exact ⟨by simp, ha last (by simp), hk⟩
      · cases h
    · rintro ⟨hr, hle, hk⟩
      have hmem : r ∈ a ++ [last] := by
        rcases List.mem_append.mp hr with hr | hr
        · exact hr
        · exact absurd (hb r hr) (not_lt.mpr hle)
      rcases List.mem_append.mp hmem with hr | hr
      · -- two intervals with the start of the last one
        have hlast : rank (start last) ≤ rank k := ha last (by simp)
        rw [List.append_assoc, List.pairwise_append] at hdisjoint hsorted
        have hboth := hdisjoint.2.2 r hr last (by simp) (start last)
        exact absurd ⟨⟨hsorted.2.2 r hr last (by simp), le_trans hlast hk⟩, le_refl _,
          hordered last (by simp)⟩ hboth
      · obtain rfl := List.mem_singleton.mp hr
        rw [if_pos hk]

end TrafficMonitor.Intervals
