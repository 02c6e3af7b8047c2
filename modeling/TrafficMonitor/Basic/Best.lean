import Mathlib.Data.List.Induction
import Mathlib.Data.List.Nodup
import Mathlib.Data.List.Lex
import Mathlib.Order.Lattice
import Mathlib.Data.Option.Basic

/-!
# The best element of each class

Elements arrive one after the other. One element of each class is kept, and an element of
the same class takes its place if a comparison says that it is greater. The comparison may
have no result (`none`), and then the selection has none.

Proved here, for a comparison that agrees with a rank:

* `select_spec`: what is kept is one greatest element of each class;
* `exists_select`, `compared_of_select`: there is a selection exactly if the elements of a
  class can be compared;
* `mem_select_of_first`: of several greatest elements of a class the first one is kept.
-/

namespace TrafficMonitor.Best

variable {α κ ρ : Type} [DecidableEq κ] (cls : α → κ) (cmp : α → α → Option Int)

/-- One more element. -/
def keep (c : α) : List α → Option (List α)
  | [] => some [c]
  | k :: ks =>
    if cls k = cls c then (cmp c k).map fun r => (if 0 < r then c else k) :: ks
    else (keep c ks).map (k :: ·)

def select (kept : List α) : List α → Option (List α)
  | [] => some kept
  | c :: cs => (keep cls cmp c kept).bind fun kept => select kept cs

variable {cls cmp}

theorem select_append {kept cs ds : List α} :
    select cls cmp kept (cs ++ ds) =
      (select cls cmp kept cs).bind fun kept => select cls cmp kept ds := by
  induction cs generalizing kept with
  | nil => rfl
  | cons c cs ih =>
    simp only [List.cons_append, select]
    cases keep cls cmp c kept with
    | none => rfl
    | some kept => exact ih

theorem select_snoc_eq_some {kept cs K : List α} {c : α} :
    select cls cmp kept (cs ++ [c]) = some K ↔
      ∃ K₀, select cls cmp kept cs = some K₀ ∧ keep cls cmp c K₀ = some K := by
  rw [select_append, Option.bind_eq_some_iff]
  simp [select]

/-- **What one element does.** It is new in its class, or is compared with the one kept. -/
theorem keep_cases {c : α} {ks K : List α} (h : keep cls cmp c ks = some K) :
    ((∀ k ∈ ks, cls k ≠ cls c) ∧ K = ks ++ [c]) ∨
      ∃ as k bs r, ks = as ++ k :: bs ∧ cls k = cls c ∧ cmp c k = some r ∧
        K = as ++ (if 0 < r then c else k) :: bs := by
  induction ks generalizing K with
  | nil =>
    cases h
    exact .inl ⟨by simp, rfl⟩
  | cons k ks ih =>
    rw [keep] at h
    split at h
    · rename_i hk
      obtain ⟨r, hr, rfl⟩ := Option.map_eq_some_iff.mp h
      exact .inr ⟨[], k, ks, r, rfl, hk, hr, rfl⟩
    · rename_i hk
      obtain ⟨K', hK', rfl⟩ := Option.map_eq_some_iff.mp h
      rcases ih hK' with ⟨hne, rfl⟩ | ⟨as, j, bs, r, rfl, hj, hr, rfl⟩
      · exact .inl ⟨by simpa [hk] using hne, rfl⟩
      · exact .inr ⟨k :: as, j, bs, r, rfl, hj, hr, rfl⟩

theorem exists_keep {c : α} {ks : List α}
    (h : ∀ k ∈ ks, cls k = cls c → (cmp c k).isSome = true) : ∃ K, keep cls cmp c ks = some K := by
  induction ks with
  | nil => exact ⟨[c], rfl⟩
  | cons k ks ih =>
    rw [keep]
    split
    · rename_i hk
      obtain ⟨r, hr⟩ := Option.isSome_iff_exists.mp (h k (by simp) hk)
      exact ⟨(if 0 < r then c else k) :: ks, by rw [hr]; rfl⟩
    · obtain ⟨K, hK⟩ := ih fun j hj => h j (by simp [hj])
      exact ⟨k :: K, by rw [hK]; rfl⟩

theorem mem_of_keep {c : α} {ks K : List α} (h : keep cls cmp c ks = some K) :
    ∀ k ∈ K, k = c ∨ k ∈ ks := by
  intro k hk
  rcases keep_cases h with ⟨-, rfl⟩ | ⟨as, j, bs, r, rfl, -, -, rfl⟩
  · rcases List.mem_append.mp hk with hk | hk
    · exact .inr hk
    · exact .inl (List.mem_singleton.mp hk)
  · split at hk <;> simp only [List.mem_append, List.mem_cons] at hk ⊢ <;> tauto

theorem mem_of_select {cs K : List α} (h : select cls cmp [] cs = some K) : ∀ k ∈ K, k ∈ cs := by
  induction cs using List.reverseRecOn generalizing K with
  | nil =>
    cases h
    simp
  | append_singleton cs c ih =>
    obtain ⟨K₀, h₀, hK⟩ := select_snoc_eq_some.mp h
    intro k hk
    rcases mem_of_keep hK k hk with rfl | hk
    · simp
    · exact List.mem_append_left _ (ih h₀ k hk)

/-- A keeper of each class, from the one of the step before. -/
private theorem covered_of_keep {c : α} {ks K : List α} (h : keep cls cmp c ks = some K) :
    (∃ k ∈ K, cls k = cls c) ∧ ∀ j ∈ ks, ∃ k ∈ K, cls k = cls j := by
  rcases keep_cases h with ⟨-, rfl⟩ | ⟨as, k, bs, r, rfl, hk, -, rfl⟩
  · exact ⟨⟨c, by simp, rfl⟩, fun j hj => ⟨j, by simp [hj], rfl⟩⟩
  · have hcls : cls (if 0 < r then c else k) = cls c := by split <;> simp [hk]
    have hmem : (if 0 < r then c else k) ∈ as ++ (if 0 < r then c else k) :: bs := by simp
    refine ⟨⟨_, hmem, hcls⟩, ?_⟩
    intro j hj
    rcases List.mem_append.mp hj with hj | hj
    · exact ⟨j, by simp [hj], rfl⟩
    · rcases List.mem_cons.mp hj with rfl | hj
      · exact ⟨_, hmem, hcls.trans hk.symm⟩
      · exact ⟨j, by simp [hj], rfl⟩

theorem covered_of_select {cs K : List α} (h : select cls cmp [] cs = some K) :
    ∀ c ∈ cs, ∃ k ∈ K, cls k = cls c := by
  induction cs using List.reverseRecOn generalizing K with
  | nil => simp
  | append_singleton cs c ih =>
    obtain ⟨K₀, h₀, hK⟩ := select_snoc_eq_some.mp h
    intro d hd
    rcases List.mem_append.mp hd with hd | hd
    · obtain ⟨j, hj, he⟩ := ih h₀ d hd
      obtain ⟨k, hk, hk'⟩ := (covered_of_keep hK).2 j hj
      exact ⟨k, hk, hk'.trans he⟩
    · cases List.mem_singleton.mp hd
      exact (covered_of_keep hK).1

private theorem nodup_of_keep {c : α} {ks K : List α} (h : keep cls cmp c ks = some K)
    (hks : (ks.map cls).Nodup) : (K.map cls).Nodup := by
  rcases keep_cases h with ⟨hne, rfl⟩ | ⟨as, k, bs, r, rfl, hk, -, rfl⟩
  · rw [List.map_append, List.nodup_append]
    refine ⟨hks, by simp, ?_⟩
    intro x hx y hy
    obtain ⟨k, hk, rfl⟩ := List.mem_map.mp hx
    simp only [List.map_cons, List.map_nil, List.mem_singleton] at hy
    exact hy ▸ hne k hk
  · have hcls : cls (if 0 < r then c else k) = cls k := by split <;> simp [hk]
    simpa [hcls] using hks

theorem nodup_of_select {cs K : List α} (h : select cls cmp [] cs = some K) :
    (K.map cls).Nodup := by
  induction cs using List.reverseRecOn generalizing K with
  | nil =>
    cases h
    simp
  | append_singleton cs c ih =>
    obtain ⟨K₀, h₀, hK⟩ := select_snoc_eq_some.mp h
    exact nodup_of_keep hK (ih h₀)

/-- **Comparable elements** have a selection. -/
theorem exists_select {cs : List α} (hn : cs.Nodup)
    (h : ∀ a ∈ cs, ∀ b ∈ cs, a ≠ b → cls a = cls b → (cmp a b).isSome = true) :
    ∃ K, select cls cmp [] cs = some K := by
  induction cs using List.reverseRecOn with
  | nil => exact ⟨[], rfl⟩
  | append_singleton cs c ih =>
    rw [List.nodup_append] at hn
    obtain ⟨hcs, -, hdisj⟩ := hn
    have hc : c ∉ cs := fun hc => hdisj c hc c (by simp) rfl
    obtain ⟨K₀, h₀⟩ := ih hcs fun a ha b hb => h a (by simp [ha]) b (by simp [hb])
    have hmem := mem_of_select h₀
    obtain ⟨K, hK⟩ : ∃ K, keep cls cmp c K₀ = some K := exists_keep fun k hk he =>
      h c (by simp) k (by simp [hmem k hk]) (fun e => hc (e ▸ hmem k hk)) he.symm
    exact ⟨K, select_snoc_eq_some.mpr ⟨K₀, h₀, hK⟩⟩

/-- Every element of a class with others was compared at some time. -/
theorem compared_of_select {P : α → Prop}
    (hP : ∀ a b, (cmp a b).isSome = true → P a ∧ P b) {cs K : List α}
    (h : select cls cmp [] cs = some K) :
    ∀ a ∈ cs, ∀ b ∈ cs, a ≠ b → cls a = cls b → P a := by
  induction cs using List.reverseRecOn generalizing K with
  | nil => simp
  | append_singleton cs c ih =>
    obtain ⟨K₀, h₀, hK⟩ := select_snoc_eq_some.mp h
    -- the new element and the one kept for its class are compared; others were before
    have key : ∀ b ∈ cs, cls b = cls c → P c ∧ P b := by
      intro b hb he
      obtain ⟨j, hj, hje⟩ := covered_of_select h₀ b hb
      rcases keep_cases hK with ⟨hne, -⟩ | ⟨as, k, bs, r, rfl, hk, hr, -⟩
      · exact absurd (hje.trans he) (hne j hj)
      · obtain ⟨pc, pk⟩ := hP c k (by simp [hr])
        refine ⟨pc, ?_⟩
        by_cases hbk : b = k
        · exact hbk ▸ pk
        · exact ih h₀ b hb k (mem_of_select h₀ k (by simp)) hbk (he.trans hk.symm)
    intro a ha b hb hab he
    rcases List.mem_append.mp ha with ha | ha <;> rcases List.mem_append.mp hb with hb | hb
    · exact ih h₀ a ha b hb hab he
    · cases List.mem_singleton.mp hb
      exact (key a ha he).2
    · cases List.mem_singleton.mp ha
      exact (key b hb he.symm).1
    · cases List.mem_singleton.mp ha
      cases List.mem_singleton.mp hb
      exact absurd rfl hab

section Rank

variable [LinearOrder ρ] {rank : α → ρ}

/-- **What is kept** is of greatest rank in its class. -/
theorem select_spec (hr : ∀ a b r, cmp a b = some r → (0 < r ↔ rank b < rank a)) {cs K : List α}
    (h : select cls cmp [] cs = some K) :
    ∀ k ∈ K, ∀ c ∈ cs, cls c = cls k → rank c ≤ rank k := by
  induction cs using List.reverseRecOn generalizing K with
  | nil => simp
  | append_singleton cs c ih =>
    obtain ⟨K₀, h₀, hK⟩ := select_snoc_eq_some.mp h
    have old := ih h₀
    rcases keep_cases hK with ⟨hne, rfl⟩ | ⟨as, k, bs, r, rfl, hk, hcmp, rfl⟩
    · intro j hj d hd he
      rcases List.mem_append.mp hj with hj | hj <;> rcases List.mem_append.mp hd with hd | hd
      · exact old j hj d hd he
      · cases List.mem_singleton.mp hd
        exact absurd he.symm (hne j hj)
      · cases List.mem_singleton.mp hj
        obtain ⟨j, hj, hje⟩ := covered_of_select h₀ d hd
        exact absurd (hje.trans he) (hne j hj)
      · cases List.mem_singleton.mp hj
        cases List.mem_singleton.mp hd
        exact le_rfl
    · have hn := nodup_of_select h₀
      -- the element kept for the class of `c`, and every other one
      have hbest : ∀ d ∈ cs ++ [c], cls d = cls c → rank d ≤ rank (if 0 < r then c else k) := by
        intro d hd he
        have hdk : d ∈ cs → rank d ≤ rank k := fun hd => old k (by simp) d hd (he.trans hk.symm)
        rcases List.mem_append.mp hd with hd | hd
        · split
          · rename_i hpos
            exact (hdk hd).trans ((hr c k r hcmp).mp hpos).le
          · exact hdk hd
        · cases List.mem_singleton.mp hd
          split
          · exact le_rfl
          · rename_i hpos
            exact not_lt.mp fun hlt => hpos ((hr c k r hcmp).mpr hlt)
      have hrest : ∀ j, j ∈ as ∨ j ∈ bs → cls j ≠ cls k := by
        intro j hj
        rw [List.map_append, List.map_cons, List.nodup_append, List.nodup_cons] at hn
        rcases hj with hj | hj
        · exact hn.2.2 _ (List.mem_map_of_mem hj) _ (by simp)
        · exact fun e => hn.2.1.1 (e ▸ List.mem_map_of_mem hj)
      intro j hj d hd he
      have hj' : (j ∈ as ∨ j ∈ bs) ∨ j = (if 0 < r then c else k) := by
        simp only [List.mem_append, List.mem_cons] at hj
        tauto
      rcases hj' with hj' | rfl
      · rcases List.mem_append.mp hd with hd | hd
        · exact old j (by simp only [List.mem_append, List.mem_cons]; tauto) d hd he
        · cases List.mem_singleton.mp hd
          exact absurd (he.symm.trans hk.symm) (hrest j hj')
      · exact hbest d hd (he.trans (by split <;> simp [hk]))

/-- **The first of several.** An element that none after it exceeds stays. -/
theorem mem_select_of_first (hr : ∀ a b r, cmp a b = some r → (0 < r ↔ rank b < rank a)) {c : α}
    {cs K : List α} (hc : ∀ d ∈ cs, cls d = cls c → rank d ≤ rank c)
    (h : select cls cmp [] (c :: cs) = some K) : c ∈ K := by
  induction cs using List.reverseRecOn generalizing K with
  | nil =>
    cases h
    simp
  | append_singleton cs d ih =>
    rw [← List.cons_append] at h
    obtain ⟨K₀, h₀, hK⟩ := select_snoc_eq_some.mp h
    have hm := ih (fun e he => hc e (by simp [he])) h₀
    have hn := nodup_of_select h₀
    rcases keep_cases hK with ⟨-, rfl⟩ | ⟨as, k, bs, r, rfl, hk, hcmp, rfl⟩
    · simp [hm]
    · simp only [List.mem_append, List.mem_cons] at hm ⊢
      rcases hm with hm | rfl | hm
      · exact .inl hm
      · refine .inr (.inl ?_)
        rw [if_neg]
        exact fun hpos => absurd ((hr d c r hcmp).mp hpos) (not_lt.mpr (hc d (by simp) hk.symm))
      · exact .inr (.inr hm)

end Rank

end TrafficMonitor.Best
