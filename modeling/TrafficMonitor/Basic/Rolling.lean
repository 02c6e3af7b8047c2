import Mathlib

/-!
# Windows that count days

Items arrive on days that do not decrease. They are grouped by day, and of the groups the
last `w` are kept: those of the last `w` days on which something arrived, which need not
be the last `w` days of the calendar.

Proved here:

* `counted_arrive`: what one arrival does to the kept groups;
* `kept_in_window_iff`: all kept days are among the last `w` of the calendar if and only if
  nothing arrived earlier, or something arrived on each of them;
* `Counted.flat_eq`: in this case, what is kept is what arrived on these days.
-/

namespace TrafficMonitor.Rolling

variable {P : Type}

/-! ## Groups -/

/-- The items of the groups, with their days. -/
def flat (gs : List (Int × List P)) : List (Int × P) := gs.flatMap fun g => g.2.map (g.1, ·)

/-- An item joins the last group if that is the group of its day, and else opens one. -/
def join (d : Int) (p : P) (gs : List (Int × List P)) : List (Int × List P) :=
  match gs.getLast? with
  | some g => if g.1 = d then gs.dropLast ++ [(d, g.2 ++ [p])] else gs ++ [(d, [p])]
  | none => [(d, [p])]

def arrive (w : Nat) (d : Int) (p : P) (gs : List (Int × List P)) : List (Int × List P) :=
  (join d p gs).drop ((join d p gs).length - w)

theorem flat_append (gs hs : List (Int × List P)) : flat (gs ++ hs) = flat gs ++ flat hs := by
  simp [flat]

theorem mem_flat {gs : List (Int × List P)} {a : Int × P} :
    a ∈ flat gs ↔ ∃ g ∈ gs, a.1 = g.1 ∧ a.2 ∈ g.2 := by
  simp only [flat, List.mem_flatMap, List.mem_map]
  constructor
  · rintro ⟨g, hg, p, hp, rfl⟩
    exact ⟨g, hg, rfl, hp⟩
  · rintro ⟨g, hg, hd, hp⟩
    exact ⟨g, hg, a.2, hp, by rw [← hd]⟩

theorem join_concat (d : Int) (p : P) (gs : List (Int × List P)) (g : Int × List P) :
    join d p (gs ++ [g]) =
      if g.1 = d then gs ++ [(d, g.2 ++ [p])] else gs ++ [g] ++ [(d, [p])] := by
  simp [join]

theorem flat_join (d : Int) (p : P) (gs : List (Int × List P)) :
    flat (join d p gs) = flat gs ++ [(d, p)] := by
  rcases List.eq_nil_or_concat gs with rfl | ⟨gs, g, rfl⟩
  · rfl
  · rw [List.concat_eq_append, join_concat]
    split
    · rename_i h
      simp [flat, h]
    · simp [flat]

/-! ## What is kept -/

/-- The groups are those of the last of the arrivals `as`: what is gone is older than every
group, and something is gone only if there are `w` groups. -/
structure Counted (w : Nat) (gs : List (Int × List P)) (as : List (Int × P)) : Prop where
  increasing : gs.Pairwise fun g h => g.1 < h.1
  nonempty : ∀ g ∈ gs, g.2 ≠ []
  split : ∃ gone, as = gone ++ flat gs ∧ (∀ a ∈ gone, ∀ g ∈ gs, a.1 < g.1) ∧
    (gone ≠ [] → w ≤ gs.length)

theorem counted_nil (w : Nat) : Counted w ([] : List (Int × List P)) [] :=
  ⟨.nil, by simp, [], rfl, by simp, by simp⟩

variable {w : Nat} {gs : List (Int × List P)} {as : List (Int × P)} {d : Int}

/-- Every group is of a day on which something arrived. -/
theorem Counted.exists_arrival (h : Counted w gs as) {g : Int × List P} (hg : g ∈ gs) :
    ∃ a ∈ as, a.1 = g.1 := by
  obtain ⟨gone, rfl, -, -⟩ := h.split
  obtain ⟨p, hp⟩ := List.exists_mem_of_ne_nil _ (h.nonempty g hg)
  exact ⟨(g.1, p), List.mem_append_right _ (mem_flat.mpr ⟨g, hg, rfl, hp⟩), rfl⟩

private theorem counted_join (hw : 1 ≤ w) (h : Counted w gs as) (hd : ∀ a ∈ as, a.1 ≤ d) (p : P) :
    Counted w (join d p gs) (as ++ [(d, p)]) := by
  obtain ⟨gone, hgone, hold, hfull⟩ := h.split
  have hle : ∀ g ∈ gs, g.1 ≤ d := fun g hg => by
    obtain ⟨a, ha, hag⟩ := h.exists_arrival hg
    exact hag ▸ hd a ha
  have hsplit : as ++ [(d, p)] = gone ++ flat (join d p gs) := by
    rw [flat_join, hgone, List.append_assoc]
  rcases List.eq_nil_or_concat gs with rfl | ⟨gs, g, rfl⟩
  · have hnil : gone = [] := by
      by_contra hne
      have := hfull hne
      simp at this
      omega
    exact ⟨List.pairwise_singleton _ _, by simp [join], gone, hsplit, by simp [hnil], by simp [hnil]⟩
  rw [List.concat_eq_append] at *
  obtain ⟨hgs, -, hlast⟩ := List.pairwise_append.mp h.increasing
  have hbefore : ∀ x ∈ gs, x.1 < g.1 := fun x hx => hlast x hx g (by simp)
  have hg := hle g (by simp)
  rw [join_concat] at hsplit ⊢
  split at hsplit
  · rename_i hgd
    rw [if_pos hgd]
    refine ⟨?_, ?_, gone, hsplit, ?_, ?_⟩
    · refine List.pairwise_append.mpr ⟨hgs, List.pairwise_singleton _ _, ?_⟩
      simpa [← hgd] using hbefore
    · intro x hx
      rcases List.mem_append.mp hx with hx | hx
      · exact h.nonempty x (List.mem_append_left _ hx)
      · simp [List.mem_singleton.mp hx]
    · intro a ha x hx
      rcases List.mem_append.mp hx with hx | hx
      · exact hold a ha x (List.mem_append_left _ hx)
      · rw [List.mem_singleton.mp hx, ← hgd]
        exact hold a ha g (by simp)
    · simpa using hfull
  · rename_i hgd
    rw [if_neg hgd]
    refine ⟨?_, ?_, gone, hsplit, ?_, ?_⟩
    · refine List.pairwise_append.mpr ⟨h.increasing, List.pairwise_singleton _ _, ?_⟩
      intro x hx y hy
      rw [List.mem_singleton.mp hy]
      rcases List.mem_append.mp hx with hx | hx
      · exact (hbefore x hx).trans_le hg
      · rw [List.mem_singleton.mp hx]
        exact lt_of_le_of_ne hg hgd
    · intro x hx
      rcases List.mem_append.mp hx with hx | hx
      · exact h.nonempty x hx
      · simp [List.mem_singleton.mp hx]
    · intro a ha x hx
      rcases List.mem_append.mp hx with hx | hx
      · exact hold a ha x hx
      · rw [List.mem_singleton.mp hx]
        exact (hold a ha g (by simp)).trans_le hg
    · intro hne
      have := hfull hne
      rw [List.length_append]
      omega

private theorem counted_drop (h : Counted w gs as) : Counted w (gs.drop (gs.length - w)) as := by
  obtain ⟨gone, hgone, hold, hfull⟩ := h.split
  have hcut := List.take_append_drop (gs.length - w) gs
  have hpair := h.increasing
  rw [← hcut] at hpair
  obtain ⟨-, hkept, hlt⟩ := List.pairwise_append.mp hpair
  refine ⟨hkept, fun g hg => h.nonempty g (List.mem_of_mem_drop hg),
    gone ++ flat (gs.take (gs.length - w)), ?_, ?_, ?_⟩
  · rw [List.append_assoc, ← flat_append, hcut, hgone]
  · intro a ha g hg
    rcases List.mem_append.mp ha with ha | ha
    · exact hold a ha g (List.mem_of_mem_drop hg)
    · obtain ⟨x, hx, hax, -⟩ := mem_flat.mp ha
      rw [hax]
      exact hlt x hx g hg
  · intro hne
    have hlong : w ≤ gs.length := by
      by_cases hnil : gone = []
      · by_contra hshort
        rw [hnil, Nat.sub_eq_zero_of_le (by omega)] at hne
        exact hne rfl
      · exact hfull hnil
    rw [List.length_drop]
    omega

/-- **One arrival.** -/
theorem counted_arrive (hw : 1 ≤ w) (h : Counted w gs as) (hd : ∀ a ∈ as, a.1 ≤ d) (p : P) :
    Counted w (arrive w d p gs) (as ++ [(d, p)]) :=
  counted_drop (counted_join hw h hd p)

theorem length_arrive (w : Nat) (d : Int) (p : P) (gs : List (Int × List P)) :
    (arrive w d p gs).length ≤ w := by
  rw [arrive, List.length_drop]
  omega

/-! ## The calendar -/

/-- The days of the groups. -/
private def days (gs : List (Int × List P)) : Finset Int := (gs.map (·.1)).toFinset

private theorem mem_days {e : Int} : e ∈ days gs ↔ ∃ g ∈ gs, g.1 = e := by
  simp [days]

private theorem Counted.card_days (h : Counted w gs as) : (days gs).card = gs.length := by
  rw [days, List.toFinset_card_of_nodup, List.length_map]
  exact List.pairwise_map.mpr (h.increasing.imp fun hlt => ne_of_lt hlt)

/-- Groups of the last `w` days, with something gone, are groups of all of them. -/
private theorem Counted.days_eq (h : Counted w gs as) (hlen : gs.length = w)
    (hin : ∀ g ∈ gs, d - w < g.1 ∧ g.1 ≤ d) : days gs = Finset.Ioc (d - w) d := by
  refine Finset.eq_of_subset_of_card_le ?_ ?_
  · intro e he
    obtain ⟨g, hg, rfl⟩ := mem_days.mp he
    exact Finset.mem_Ioc.mpr (hin g hg)
  · rw [h.card_days, Int.card_Ioc, hlen]
    omega

/-- **Counted days and calendar days.** -/
theorem kept_in_window_iff (h : Counted w gs as) (hlen : gs.length ≤ w)
    (hd : ∀ a ∈ as, a.1 ≤ d) :
    (∀ g ∈ gs, d - w < g.1) ↔
      (∀ a ∈ as, d - w < a.1) ∨ ∀ e, d - w < e → e ≤ d → ∃ a ∈ as, a.1 = e := by
  obtain ⟨gone, hgone, hold, hfull⟩ := h.split
  constructor
  · intro hin
    by_cases hnil : gone = []
    · refine .inl fun a ha => ?_
      rw [hgone, hnil, List.nil_append] at ha
      obtain ⟨g, hg, hag, -⟩ := mem_flat.mp ha
      rw [hag]
      exact hin g hg
    · refine .inr fun e hlo hhi => ?_
      have hall := h.days_eq (le_antisymm hlen (hfull hnil)) fun g hg => ⟨hin g hg, by
        obtain ⟨a, ha, hag⟩ := h.exists_arrival hg
        exact hag ▸ hd a ha⟩
      obtain ⟨g, hg, rfl⟩ := mem_days.mp (hall ▸ Finset.mem_Ioc.mpr ⟨hlo, hhi⟩)
      exact h.exists_arrival hg
  · rintro (hnew | hdaily) g hg
    · obtain ⟨a, ha, hag⟩ := h.exists_arrival hg
      exact hag ▸ hnew a ha
    · by_contra hlow
      -- a day before the window, and the `w` days of the window, are too many
      have hsub : insert g.1 (Finset.Ioc (d - w) d) ⊆ days gs := by
        intro e he
        rcases Finset.mem_insert.mp he with rfl | he
        · exact mem_days.mpr ⟨g, hg, rfl⟩
        · obtain ⟨hlo, hhi⟩ := Finset.mem_Ioc.mp he
          obtain ⟨a, ha, rfl⟩ := hdaily e hlo hhi
          rw [hgone] at ha
          rcases List.mem_append.mp ha with ha | ha
          · have := hold a ha g hg
            omega
          · obtain ⟨x, hx, hax, -⟩ := mem_flat.mp ha
            exact mem_days.mpr ⟨x, hx, hax.symm⟩
      have hnot : g.1 ∉ Finset.Ioc (d - w) d := fun hmem => hlow (Finset.mem_Ioc.mp hmem).1
      have hcard := Finset.card_le_card hsub
      rw [Finset.card_insert_of_notMem hnot, Int.card_Ioc, h.card_days] at hcard
      omega

/-- **Exact window.** -/
theorem Counted.flat_eq (h : Counted w gs as) (hw : 1 ≤ w) (hlen : gs.length ≤ w)
    (hd : ∀ a ∈ as, a.1 ≤ d) (hin : ∀ g ∈ gs, d - w < g.1) :
    flat gs = as.filter fun a => d - w < a.1 ∧ a.1 ≤ d := by
  obtain ⟨gone, hgone, hold, hfull⟩ := h.split
  have hkept : ∀ a ∈ flat gs, d - w < a.1 ∧ a.1 ≤ d := by
    intro a ha
    obtain ⟨g, hg, hag, -⟩ := mem_flat.mp ha
    exact ⟨hag ▸ hin g hg, hd a (hgone ▸ List.mem_append_right _ ha)⟩
  have hgoneOut : ∀ a ∈ gone, ¬(d - w < a.1 ∧ a.1 ≤ d) := by
    intro a ha
    have hall := h.days_eq (le_antisymm hlen (hfull (List.ne_nil_of_mem ha))) fun g hg =>
      ⟨hin g hg, by
        obtain ⟨b, hb, hbg⟩ := h.exists_arrival hg
        exact hbg ▸ hd b hb⟩
    have hfirst : d - w + 1 ∈ Finset.Ioc (d - w) d := Finset.mem_Ioc.mpr ⟨by omega, by omega⟩
    obtain ⟨g, hg, hgd⟩ := mem_days.mp (hall ▸ hfirst)
    have := hold a ha g hg
    omega
  rw [hgone, List.filter_append, List.filter_eq_nil_iff.mpr, List.filter_eq_self.mpr,
    List.nil_append]
  · simpa using hkept
  · simpa using hgoneOut

end TrafficMonitor.Rolling
