import Mathlib

/-!
# Finite maps with totals

A `std::unordered_map` is an association list without repeated keys. `get` is what
`operator[]` reads, `total` adds up a quantity over all entries, `keep` restricts a map
to some keys, `evict` makes room for a new key under a cap, and `mergeInto` folds the
entries of one map into another.

Proved here:

* `total_insert`, `total_erase`: what an entry contributes to a total;
* `evict_spec`: an eviction takes an entry of minimal weight, and only for a new key;
* `size_insert_evict`: after an eviction and an insertion a map is within its cap;
* `get_mergeInto`: what a merged map holds at a key;
* `get_foldl_mergeInto`: many merged maps hold the sums of what they held.
-/

namespace TrafficMonitor

abbrev Map (K V : Type) := AList fun _ : K => V

namespace Maps

variable {K V W : Type}

def size (m : Map K V) : Nat := m.entries.length

def total (g : V → Nat) (m : Map K V) : Nat := (m.entries.map fun e => g e.2).sum

def keep (p : K → Bool) (m : Map K V) : Map K V :=
  ⟨m.entries.filter fun e => p e.1, m.nodupKeys.sublist List.filter_sublist⟩

@[simp] theorem total_empty (g : V → Nat) : total g (∅ : Map K V) = 0 := rfl

@[simp] theorem size_empty : size (∅ : Map K V) = 0 := rfl

variable [DecidableEq K]

def get (m : Map K V) (k : K) (d : V) : V := (m.lookup k).getD d

/-! ## Reading -/

@[simp] theorem get_empty (k : K) (d : V) : get ∅ k d = d := by simp [get]

@[simp] theorem get_insert (m : Map K V) (k : K) (v d : V) : get (m.insert k v) k d = v := by
  simp [get]

theorem get_insert_ne {m : Map K V} {k j : K} {v d : V} (h : j ≠ k) :
    get (m.insert k v) j d = get m j d := by
  simp [get, AList.lookup_insert_ne h]

theorem lookup_keep (p : K → Bool) (m : Map K V) (k : K) :
    (keep p m).lookup k = if p k then m.lookup k else none := by
  ext v
  have hmem : v ∈ (keep p m).lookup k ↔ v ∈ m.lookup k ∧ p k = true := by
    rw [AList.mem_lookup_iff, AList.mem_lookup_iff, keep, List.mem_filter]
  rw [← Option.mem_def, hmem]
  split
  · rename_i hp
    simp [hp]
  · rename_i hp
    simp [hp]

theorem get_keep (p : K → Bool) (m : Map K V) (k : K) (d : V) :
    get (keep p m) k d = if p k then get m k d else d := by
  rw [get, lookup_keep]
  split <;> rfl

theorem mem_keep (p : K → Bool) (m : Map K V) (k : K) : k ∈ keep p m ↔ p k = true ∧ k ∈ m := by
  rw [← AList.lookup_isSome, lookup_keep, ← AList.lookup_isSome]
  split
  · rename_i hp
    simp [hp]
  · rename_i hp
    simp [hp]

theorem get_of_notMem {m : Map K V} {k : K} {d : V} (h : k ∉ m) : get m k d = d := by
  rw [get, AList.lookup_eq_none.mpr h, Option.getD_none]

/-! ## Totals and sizes -/

/-- The map is the entry at `k`, if any, and the rest. -/
private theorem entries_split (m : Map K V) (k : K) :
    (∃ l₁ v l₂, m.lookup k = some v ∧ m.entries = l₁ ++ ⟨k, v⟩ :: l₂ ∧
      (m.erase k).entries = l₁ ++ l₂) ∨ (k ∉ m ∧ m.erase k = m) := by
  by_cases hk : k ∈ m
  · obtain ⟨v, l₁, l₂, -, h, he⟩ := List.exists_of_kerase (AList.mem_keys.mp hk)
    refine .inl ⟨l₁, v, l₂, ?_, h, he⟩
    rw [← Option.mem_def, AList.mem_lookup_iff, h]
    simp
  · refine .inr ⟨hk, AList.ext ?_⟩
    exact List.kerase_of_notMem_keys hk

theorem total_erase (g : V → Nat) (m : Map K V) (k : K) :
    total g (m.erase k) + (m.lookup k).elim 0 g = total g m := by
  rcases entries_split m k with ⟨l₁, v, l₂, hv, h, he⟩ | ⟨hk, he⟩
  · simp only [total, h, he, hv, List.map_append, List.map_cons, List.sum_append, List.sum_cons,
      Option.elim_some]
    omega
  · rw [he, AList.lookup_eq_none.mpr hk, Option.elim_none, Nat.add_zero]

theorem total_insert (g : V → Nat) (m : Map K V) (k : K) (v : V) :
    total g (m.insert k v) + (m.lookup k).elim 0 g = total g m + g v := by
  have h : total g (m.insert k v) = g v + total g (m.erase k) := by
    simp [total, AList.entries_insert, AList.erase]
  have := total_erase g m k
  omega

/-- Where the default counts nothing, the old value may be read with `operator[]`. -/
theorem total_insert_get {g : V → Nat} {d : V} (hd : g d = 0) (m : Map K V) (k : K) (v : V) :
    total g (m.insert k v) + g (get m k d) = total g m + g v := by
  rw [← total_insert g m k v, get]
  cases m.lookup k with
  | none => simp [hd]
  | some w => simp

theorem size_erase {m : Map K V} {k : K} (h : k ∈ m) : size (m.erase k) + 1 = size m := by
  rcases entries_split m k with ⟨l₁, v, l₂, -, hm, he⟩ | ⟨hk, -⟩
  · simp [size, hm, he, Nat.add_assoc]
  · exact absurd h hk

theorem size_insert (m : Map K V) (k : K) (v : V) :
    size (m.insert k v) = if k ∈ m then size m else size m + 1 := by
  have h : size (m.insert k v) = size (m.erase k) + 1 := by
    simp [size, AList.entries_insert, AList.erase]
  split
  · rename_i hk
    rw [h, size_erase hk]
  · rename_i hk
    rcases entries_split m k with ⟨_, _, _, hv, -⟩ | ⟨-, he⟩
    · rw [AList.lookup_eq_none.mpr hk] at hv
      cases hv
    · rw [h, he]

/-! ## Eviction -/

/-- `std::min_element`: the first of the lightest entries. -/
def minElement (weight : V → Nat) : List (K × V) → Option (K × V)
  | [] => none
  | e :: es => some (es.foldl (fun best x => if weight x.2 < weight best.2 then x else best) e)

/-- The entries in the order in which the map is iterated. -/
def inOrder (m : Map K V) (order : List K) : List (K × V) :=
  order.filterMap fun k => (m.lookup k).map (k, ·)

/-- A full map loses its lightest entry to a new key `k`; `none` if `order` is not an order
of the keys. -/
def evict (cap : Nat) (weight : V → Nat) (order : List K) (k : K) (m : Map K V) :
    Option (Map K V × Option (K × V)) :=
  if cap ≤ size m ∧ k ∉ m then
    if order.Perm m.keys then
      match minElement weight (inOrder m order) with
      | some e => some (m.erase e.1, some e)
      | none => some (m, none)
    else none
  else some (m, none)

theorem evict_empty {cap : Nat} (hcap : 1 ≤ cap) (weight : V → Nat) (order : List K) (k : K) :
    evict cap weight order k ∅ = some (∅, none) := by
  have hroom : ¬(cap ≤ size (∅ : Map K V) ∧ k ∉ (∅ : Map K V)) := fun h => by
    rw [size_empty] at h
    omega
  exact if_neg hroom

omit [DecidableEq K] in
private theorem foldl_min (weight : V → Nat) (es : List (K × V)) (e : K × V) :
    es.foldl (fun best x => if weight x.2 < weight best.2 then x else best) e ∈ e :: es ∧
      ∀ x ∈ e :: es, weight (es.foldl
        (fun best x => if weight x.2 < weight best.2 then x else best) e).2 ≤ weight x.2 := by
  induction es generalizing e with
  | nil => simp
  | cons f es ih =>
    obtain ⟨hm, hle⟩ := ih (if weight f.2 < weight e.2 then f else e)
    rw [List.foldl_cons]
    have hbest := hle _ List.mem_cons_self
    refine ⟨?_, ?_⟩
    · rcases List.mem_cons.mp hm with h | h
      · rw [h]
        split <;> simp
      · exact List.mem_cons_of_mem _ (List.mem_cons_of_mem _ h)
    · intro x hx
      rcases List.mem_cons.mp hx with rfl | hx
      · refine hbest.trans ?_
        split <;> omega
      · rcases List.mem_cons.mp hx with rfl | hx
        · refine hbest.trans ?_
          split <;> omega
        · exact hle x (List.mem_cons_of_mem _ hx)

omit [DecidableEq K] in
theorem minElement_spec {weight : V → Nat} {l : List (K × V)} {e : K × V}
    (h : minElement weight l = some e) : e ∈ l ∧ ∀ x ∈ l, weight e.2 ≤ weight x.2 := by
  cases l with
  | nil => cases h
  | cons f l =>
    cases h
    exact foldl_min weight l f

theorem mem_inOrder {m : Map K V} {order : List K} (ho : order.Perm m.keys) {e : K × V} :
    e ∈ inOrder m order ↔ m.lookup e.1 = some e.2 := by
  simp only [inOrder, List.mem_filterMap, Option.map_eq_some_iff]
  constructor
  · rintro ⟨k, -, v, hv, rfl⟩
    exact hv
  · intro h
    refine ⟨e.1, ho.mem_iff.mpr ?_, e.2, h, rfl⟩
    rw [← AList.mem_keys, ← AList.lookup_isSome, h]
    rfl

/-- What an eviction takes: nothing if there is room or the key is there, and else an entry
of minimal weight from a full map. -/
inductive Evicts (cap : Nat) (weight : V → Nat) (k : K) (m : Map K V) :
    Map K V → Option (K × V) → Prop
  | nothing (h : size m < cap ∨ k ∈ m) : Evicts cap weight k m m none
  | lightest (e : K × V) (he : m.lookup e.1 = some e.2) (hk : k ∉ m) (hc : cap ≤ size m)
      (hmin : ∀ j v, m.lookup j = some v → weight e.2 ≤ weight v) :
      Evicts cap weight k m (m.erase e.1) (some e)

theorem evict_spec {cap : Nat} {weight : V → Nat} {order : List K} {k : K} {m m' : Map K V}
    {ev : Option (K × V)} (hcap : 1 ≤ cap) (h : evict cap weight order k m = some (m', ev)) :
    Evicts cap weight k m m' ev := by
  unfold evict at h
  split at h
  · rename_i hfull
    split at h
    · rename_i ho
      split at h
      · rename_i e he
        cases h
        obtain ⟨hm, hmin⟩ := minElement_spec he
        refine .lightest e ((mem_inOrder ho).mp hm) hfull.2 hfull.1 ?_
        intro j v hv
        exact hmin (j, v) ((mem_inOrder ho).mpr hv)
      · rename_i hnone
        -- a full map has an entry
        obtain ⟨e, l, hel⟩ : ∃ e l, m.entries = e :: l := by
          cases he : m.entries with
          | nil => simp [size, he] at hfull; omega
          | cons e l => exact ⟨e, l, rfl⟩
        have hmem : (e.1, e.2) ∈ inOrder m order := by
          rw [mem_inOrder ho, ← Option.mem_def, AList.mem_lookup_iff, hel]
          simp
        cases hl : inOrder m order with
        | nil => simp [hl] at hmem
        | cons f l => simp [hl, minElement] at hnone
    · cases h
  · rename_i hn
    cases h
    rw [not_and_or, not_le, not_not] at hn
    exact .nothing hn

variable {cap : Nat} {weight : V → Nat} {k : K} {m m' : Map K V} {ev : Option (K × V)}

theorem total_evicts (g : V → Nat) (h : Evicts cap weight k m m' ev) :
    total g m' + ev.elim 0 (fun e => g e.2) = total g m := by
  cases h with
  | nothing => rfl
  | lightest e he =>
    rw [← total_erase g m e.1, he]
    rfl

/-- **Cap.** -/
theorem size_insert_evicts (h : Evicts cap weight k m m' ev) (hm : size m ≤ cap) (v : V) :
    size (m'.insert k v) ≤ cap := by
  cases h with
  | nothing hroom =>
    rw [size_insert]
    split
    · exact hm
    · rename_i hk
      have := hroom.resolve_right hk
      omega
  | lightest e he hk hc =>
    have hmem : e.1 ∈ m := by
      rw [← AList.lookup_isSome, he]
      rfl
    have hsize := size_erase hmem
    have hk' : k ∉ m.erase e.1 := fun hin => hk (AList.mem_erase.mp hin).2
    rw [size_insert, if_neg hk']
    omega

/-! ## Merging -/

/-- `for (const auto &kv : m) out[kv.first] = f(out[kv.first], kv.second);` -/
def mergeInto (f : V → W → V) (d : V) (out : Map K V) (m : Map K W) : Map K V :=
  m.entries.foldl (fun out e => out.insert e.1 (f (get out e.1 d) e.2)) out

private theorem get_foldl (f : V → W → V) (d : V) (l : List (Sigma fun _ : K => W))
    (hl : l.NodupKeys) (out : Map K V) (k : K) :
    get (l.foldl (fun out e => out.insert e.1 (f (get out e.1 d) e.2)) out) k d =
      (l.dlookup k).elim (get out k d) (f (get out k d)) := by
  induction l generalizing out with
  | nil => rfl
  | cons e l ih =>
    rw [List.nodupKeys_cons] at hl
    rw [List.foldl_cons, ih hl.2]
    by_cases hk : k = e.1
    · subst hk
      rw [List.dlookup_eq_none.mpr hl.1, List.dlookup_cons_eq, Option.elim_none, get_insert]
      rfl
    · rw [List.dlookup_cons_ne _ _ hk, get_insert_ne hk]

/-- **Merge.** -/
theorem get_mergeInto (f : V → W → V) (d : V) (out : Map K V) (m : Map K W) (k : K) :
    get (mergeInto f d out m) k d =
      (m.lookup k).elim (get out k d) (f (get out k d)) :=
  get_foldl f d m.entries m.nodupKeys out k

theorem mem_mergeInto (f : V → W → V) (d : V) (out : Map K V) (m : Map K W) (k : K) :
    k ∈ mergeInto f d out m ↔ k ∈ out ∨ k ∈ m := by
  have h : ∀ (l : List (Sigma fun _ : K => W)) (out : Map K V),
      k ∈ l.foldl (fun out e => out.insert e.1 (f (get out e.1 d) e.2)) out ↔
        k ∈ out ∨ k ∈ l.keys := by
    intro l
    induction l with
    | nil => simp
    | cons e l ih =>
      intro out
      rw [List.foldl_cons, ih, AList.mem_insert, List.keys_cons, List.mem_cons]
      tauto
  rw [AList.mem_keys (s := m)]
  exact h m.entries out

/-- **Merge of many maps.** `g` of the merged value at `k` is the sum, modulo `n`, of what
`h` reads in the maps. -/
theorem get_foldl_mergeInto {f : V → W → V} {d : V} {e : W} {g : V → Nat} {h : W → Nat} {n : Nat}
    (hn : 0 < n) (hd : g d = 0) (he : h e = 0)
    (hf : ∀ v w, g v < n → g (f v w) = (g v + h w) % n) (ms : List (Map K W)) (k : K) :
    g (get (ms.foldl (mergeInto f d) ∅) k d) = (ms.map fun m => h (get m k e)).sum % n := by
  induction ms using List.reverseRecOn with
  | nil => simp [hd]
  | append_singleton ms m ih =>
    rw [List.foldl_append, List.foldl_cons, List.foldl_nil, get_mergeInto, List.map_append,
      List.sum_append, List.map_singleton, List.sum_singleton]
    cases hk : m.lookup k with
    | none =>
      have hm : get m k e = e := get_of_notMem (AList.lookup_eq_none.mp hk)
      rw [Option.elim_none, ih, hm, he, Nat.add_zero]
    | some w =>
      have hm : get m k e = w := by rw [get, hk, Option.getD_some]
      rw [Option.elim_some, hf _ _ (ih ▸ Nat.mod_lt _ hn), ih, hm, Nat.mod_add_mod]

theorem mem_foldl_mergeInto (f : V → W → V) (d : V) (ms : List (Map K W)) (k : K) :
    k ∈ ms.foldl (mergeInto f d) ∅ ↔ ∃ m ∈ ms, k ∈ m := by
  induction ms using List.reverseRecOn with
  | nil => simp
  | append_singleton ms m ih =>
    simp only [List.foldl_append, List.foldl_cons, List.foldl_nil, mem_mergeInto, ih,
      List.mem_append, List.mem_singleton, or_and_right, exists_or, exists_eq_left]

end Maps

end TrafficMonitor
