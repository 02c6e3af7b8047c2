import Mathlib.Logic.Function.Basic
import TrafficMonitor.Basic.Runs

/-!
# Threads over shared data

Threads take turns. A step of a thread reads and changes its own local state and the data that
all threads share. The data are entries under names (`entry`); a thread relies on some entries
(`relied`), and its next step may change some (`touched`).

Proved here:

* `holds_of_meets`: what the steps of a thread preserve for itself and for the others holds for
  every thread after every run;
* `holds_of_undisturbed`: it is enough that no step touches an entry that another thread relies
  on.
-/

namespace TrafficMonitor.Threads

open Runs

variable {ι L σ A N V : Type*} [DecidableEq ι]

structure System (ι L σ : Type*) where
  threads : ι → L
  shared : σ

/-- One step of one thread. -/
def step (act : L → σ → A → Option (L × σ)) (s : System ι L σ) (a : ι × A) :
    Option (System ι L σ) :=
  (act (s.threads a.1) s.shared a.2).map fun r => ⟨Function.update s.threads a.1 r.1, r.2⟩

variable {act : L → σ → A → Option (L × σ)}

theorem step_eq_some {s s' : System ι L σ} {t : ι} {a : A} :
    step act s (t, a) = some s' ↔ ∃ l u, act (s.threads t) s.shared a = some (l, u) ∧
      s' = ⟨Function.update s.threads t l, u⟩ := by
  simp only [step, Option.map_eq_some_iff, Prod.exists]
  constructor
  · rintro ⟨l, u, h, rfl⟩
    exact ⟨l, u, h, rfl⟩
  · rintro ⟨l, u, h, rfl⟩
    exact ⟨l, u, h, rfl⟩

section Rules

variable {P : L → σ → Prop} {cond : System ι L σ → ι × A → Prop}

/-- **Interference.** -/
theorem holds_of_meets
    (hown : ∀ s t a l u, P (s.threads t) s.shared → cond s (t, a) →
      act (s.threads t) s.shared a = some (l, u) → P l u)
    (hother : ∀ s t a l u t', t' ≠ t → P (s.threads t') s.shared → cond s (t, a) →
      act (s.threads t) s.shared a = some (l, u) → P (s.threads t') u)
    {s s' : System ι L σ} {as : List (ι × A)} (hi : ∀ t, P (s.threads t) s.shared)
    (hm : Meets (step act) cond s as) (hr : run (step act) s as = some s') :
    ∀ t, P (s'.threads t) s'.shared := by
  refine invariant_of_meets (I := fun s => ∀ t, P (s.threads t) s.shared) ?_ hi hm hr
  rintro s ⟨t, a⟩ s' hs hc hstep t'
  obtain ⟨l, u, hact, rfl⟩ := step_eq_some.mp hstep
  by_cases ht : t' = t
  · subst ht
    simpa using hown s t' a l u (hs t') hc hact
  · simpa [Function.update_of_ne ht] using hother s t a l u t' ht (hs t') hc hact

variable (relied : L → List N) (touched : L → A → List N)

/-- The step touches no entry that another thread relies on. -/
def Undisturbed (s : System ι L σ) (a : ι × A) : Prop :=
  ∀ t, t ≠ a.1 → ∀ n ∈ relied (s.threads t), n ∉ touched (s.threads a.1) a.2

variable {relied touched} {entry : σ → N → V}

/-- **Undisturbed runs.** Assertions about the entries that a thread relies on survive the steps
that do not touch them. -/
theorem holds_of_undisturbed
    (hframe : ∀ l u u', P l u → (∀ n ∈ relied l, entry u' n = entry u n) → P l u')
    (htouch : ∀ l u a l' u', act l u a = some (l', u') → ∀ n, n ∉ touched l a →
      entry u' n = entry u n)
    (hcond : ∀ s a, cond s a → Undisturbed relied touched s a)
    (hown : ∀ s t a l u, P (s.threads t) s.shared → cond s (t, a) →
      act (s.threads t) s.shared a = some (l, u) → P l u)
    {s s' : System ι L σ} {as : List (ι × A)} (hi : ∀ t, P (s.threads t) s.shared)
    (hm : Meets (step act) cond s as) (hr : run (step act) s as = some s') :
    ∀ t, P (s'.threads t) s'.shared := by
  refine holds_of_meets hown ?_ hi hm hr
  intro s t a l u t' ht hP hc hact
  refine hframe _ _ _ hP fun n hn => ?_
  exact htouch _ _ _ _ _ hact n (hcond s (t, a) hc t' ht n hn)

end Rules

end TrafficMonitor.Threads
