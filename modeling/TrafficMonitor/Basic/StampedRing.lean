import Mathlib.Data.Finset.Max
import Mathlib.Data.List.Basic
import Mathlib.Logic.Function.Basic
import Mathlib.Tactic.Common

/-!
# A ring of stamped slots

A ring of `n` slots collects samples by epoch: a sample of epoch `e` goes to slot `e % n`,
which is started afresh when it bears the stamp of another epoch. Slots are never cleared
otherwise. For samples whose epochs do not decrease, proved here:

* `collect_of_latest`: a slot holds the samples of the latest epoch that went to it;
* `collect_of_unwritten`: a slot without samples is the initial one;
* `slot_cases`: there is no third case;
* `latest_of_recent`: an epoch within the last `n` is the latest one of its slot.
-/

namespace TrafficMonitor.StampedRing

variable {σ A : Type*}

/-- Slots of type `σ`: a stamp, a fresh slot of an epoch, and the addition of a sample. -/
structure Slots (σ A : Type*) where
  stamp : σ → Nat
  fresh : Nat → σ
  put : σ → A → σ
  stamp_fresh : ∀ e, stamp (fresh e) = e
  stamp_put : ∀ s a, stamp (put s a) = stamp s

variable (S : Slots σ A) (n : Nat)

/-- One sample. -/
def write (ring : Nat → σ) (x : Nat × A) : Nat → σ :=
  let old := ring (x.1 % n)
  Function.update ring (x.1 % n) (S.put (if S.stamp old = x.1 then old else S.fresh x.1) x.2)

/-- A run of samples from a ring whose slots bear the stamp zero. -/
def collect (xs : List (Nat × A)) : Nat → σ := xs.foldl (write S n) fun _ => S.fresh 0

/-- The samples of one epoch in a slot of their own. -/
def content (xs : List (Nat × A)) (e : Nat) : σ :=
  (xs.filter (·.1 = e)).foldl (fun s x => S.put s x.2) (S.fresh e)

/-- The latest epoch that went to slot `k`. -/
structure Latest (xs : List (Nat × A)) (k e : Nat) : Prop where
  slot : e % n = k
  mem : ∃ x ∈ xs, x.1 = e
  le : ∀ x ∈ xs, x.1 % n = k → x.1 ≤ e

variable {S n} {xs : List (Nat × A)} {k e : Nat}

theorem collect_snoc (xs : List (Nat × A)) (x : Nat × A) :
    collect S n (xs ++ [x]) = write S n (collect S n xs) x := by
  simp [collect]

theorem content_snoc (xs : List (Nat × A)) (x : Nat × A) (e : Nat) :
    content S (xs ++ [x]) e = if x.1 = e then S.put (content S xs e) x.2 else content S xs e := by
  unfold content
  by_cases h : x.1 = e <;> simp [h]

theorem stamp_content (xs : List (Nat × A)) (e : Nat) : S.stamp (content S xs e) = e := by
  induction xs using List.reverseRecOn with
  | nil => exact S.stamp_fresh e
  | append_singleton xs x ih =>
    rw [content_snoc]
    split
    · rw [S.stamp_put, ih]
    · exact ih

theorem content_of_absent (h : ∀ x ∈ xs, x.1 ≠ e) : content S xs e = S.fresh e := by
  have hnil : xs.filter (·.1 = e) = [] := by simpa [List.filter_eq_nil_iff] using h
  rw [content, hnil]
  rfl

theorem Latest.unique {e' : Nat} (h : Latest n xs k e) (h' : Latest n xs k e') : e = e' := by
  obtain ⟨x, hx, rfl⟩ := h.mem
  obtain ⟨y, hy, rfl⟩ := h'.mem
  exact Nat.le_antisymm (h'.le x hx h.slot) (h.le y hy h'.slot)

theorem exists_latest {x : Nat × A} (hx : x ∈ xs) : ∃ e, Latest n xs (x.1 % n) e := by
  have hmem : x.1 ∈ (xs.map (·.1)).toFinset.filter (· % n = x.1 % n) := by
    simp only [Finset.mem_filter, List.mem_toFinset, List.mem_map, and_true]
    exact ⟨x, hx, rfl⟩
  obtain ⟨e, he, hmax⟩ := Finset.exists_max_image _ id ⟨x.1, hmem⟩
  simp only [Finset.mem_filter, List.mem_toFinset, List.mem_map, id_eq] at he hmax
  obtain ⟨⟨y, hy, rfl⟩, hslot⟩ := he
  exact ⟨y.1, hslot, ⟨y, hy, rfl⟩, fun z hz hzk => hmax z.1 ⟨⟨z, hz, rfl⟩, hzk⟩⟩

theorem collect_of_unwritten (h : ∀ x ∈ xs, x.1 % n ≠ k) : collect S n xs k = S.fresh 0 := by
  induction xs using List.reverseRecOn with
  | nil => rfl
  | append_singleton xs x ih =>
    have hk : k ≠ x.1 % n := Ne.symm (h x (by simp))
    rw [collect_snoc, write, Function.update_of_ne hk]
    exact ih fun y hy => h y (by simp [hy])

/-- **The latest epoch.** -/
theorem collect_of_latest (hsorted : xs.Pairwise fun x y => x.1 ≤ y.1) (h : Latest n xs k e) :
    collect S n xs k = content S xs e := by
  induction xs using List.reverseRecOn generalizing e with
  | nil =>
    obtain ⟨x, hx, -⟩ := h.mem
    cases hx
  | append_singleton xs x ih =>
    obtain ⟨hsorted, -, hlast⟩ := List.pairwise_append.mp hsorted
    have hle : ∀ y ∈ xs, y.1 ≤ x.1 := fun y hy => hlast y hy x (by simp)
    rw [collect_snoc, write, content_snoc]
    by_cases hk : k = x.1 % n
    · subst hk
      -- the new sample is of the latest epoch
      obtain rfl : e = x.1 := by
        obtain ⟨y, hy, rfl⟩ := h.mem
        refine Nat.le_antisymm ?_ (h.le x (by simp) rfl)
        rcases List.mem_append.mp hy with hy | hy
        · exact hle y hy
        · rw [List.mem_singleton.mp hy]
      rw [Function.update_self, if_pos rfl]
      congr 1
      by_cases hold : ∃ y ∈ xs, y.1 = x.1
      · rw [ih hsorted ⟨rfl, hold, fun y hy _ => hle y hy⟩, if_pos (stamp_content xs x.1)]
      · have habsent : ∀ y ∈ xs, y.1 ≠ x.1 := fun y hy he => hold ⟨y, hy, he⟩
        rw [content_of_absent habsent]
        by_cases hw : ∃ y ∈ xs, y.1 % n = x.1 % n
        · obtain ⟨y, hy, hyk⟩ := hw
          obtain ⟨e', he'⟩ := exists_latest (n := n) hy
          rw [hyk] at he'
          have hne : e' ≠ x.1 := by
            obtain ⟨z, hz, rfl⟩ := he'.mem
            exact habsent z hz
          rw [ih hsorted he', stamp_content, if_neg hne]
        · rw [collect_of_unwritten fun y hy hyk => hw ⟨y, hy, hyk⟩]
          split
          · rename_i h0
            rw [S.stamp_fresh] at h0
            rw [h0]
          · rfl
    · have hx : x.1 ≠ e := fun he => hk (by rw [he, h.slot])
      rw [Function.update_of_ne hk, if_neg hx]
      refine ih hsorted ⟨h.slot, ?_, fun y hy => h.le y (by simp [hy])⟩
      obtain ⟨y, hy, hye⟩ := h.mem
      rcases List.mem_append.mp hy with hy | hy
      · exact ⟨y, hy, hye⟩
      · rw [List.mem_singleton.mp hy] at hye
        exact absurd hye hx

/-- No epoch after a recent one has gone to its slot: it would be beyond the present. -/
theorem latest_of_recent {now : Nat} (hnow : ∀ x ∈ xs, x.1 ≤ now) (he : ∃ x ∈ xs, x.1 = e)
    (hrecent : now < e + n) : Latest n xs (e % n) e := by
  refine ⟨rfl, he, fun x hx hxe => ?_⟩
  by_contra hlt
  have hmod : (x.1 - e) % n = 0 := Nat.sub_mod_eq_zero_of_mod_eq hxe
  have hge : n ≤ x.1 - e := Nat.le_of_dvd (by omega) (Nat.dvd_of_mod_eq_zero hmod)
  have hxnow := hnow x hx
  omega

/-- **Slots.** Unwritten, or holding the latest epoch. -/
theorem slot_cases (S : Slots σ A) (n : Nat) (hsorted : xs.Pairwise fun x y => x.1 ≤ y.1) (k : Nat) :
    ((∀ x ∈ xs, x.1 % n ≠ k) ∧ collect S n xs k = S.fresh 0) ∨
      ∃ e, Latest n xs k e ∧ collect S n xs k = content S xs e := by
  by_cases hw : ∃ y ∈ xs, y.1 % n = k
  · obtain ⟨y, hy, rfl⟩ := hw
    obtain ⟨e, he⟩ := exists_latest (n := n) hy
    exact .inr ⟨e, he, collect_of_latest hsorted he⟩
  · have hno : ∀ x ∈ xs, x.1 % n ≠ k := fun x hx hxk => hw ⟨x, hx, hxk⟩
    exact .inl ⟨hno, collect_of_unwritten hno⟩

end TrafficMonitor.StampedRing
