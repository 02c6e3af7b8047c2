import Mathlib.Data.List.Basic
import Mathlib.Tactic.Common

/-!
# Finite runs of a labelled step function

A system is a partial step function `step : σ → α → Option σ`; an action that is
not enabled gives `none`. Proved here:

* `run_append`: a run splits at any prefix of its actions;
* `invariant_of_run`: what every step preserves holds after every run;
* `invariant_of_meets`: the same when only the steps that meet a condition are
  known to preserve it, for runs all of whose steps meet that condition.
-/

namespace TrafficMonitor.Runs

variable {σ α : Type*}

/-- Execute a list of actions; `none` if one of them is not enabled. -/
def run (step : σ → α → Option σ) : σ → List α → Option σ
  | s, [] => some s
  | s, a :: as => match step s a with
    | none => none
    | some s' => run step s' as

/-- Every step that the run takes is taken in a state where `cond` holds of it. -/
def Meets (step : σ → α → Option σ) (cond : σ → α → Prop) : σ → List α → Prop
  | _, [] => True
  | s, a :: as => cond s a ∧ match step s a with
    | none => True
    | some s' => Meets step cond s' as

instance decidableMeets (step : σ → α → Option σ) (cond : σ → α → Prop)
    [∀ s a, Decidable (cond s a)] : ∀ s as, Decidable (Meets step cond s as)
  | _, [] => isTrue trivial
  | s, a :: as =>
    match h : step s a with
    | none => decidable_of_iff (cond s a) (by simp [Meets, h])
    | some s' =>
      have := decidableMeets step cond s' as
      decidable_of_iff (cond s a ∧ Meets step cond s' as) (by simp [Meets, h])

variable {step : σ → α → Option σ} {cond : σ → α → Prop}

@[simp] theorem run_nil (s : σ) : run step s [] = some s := rfl

theorem run_cons_eq_some {s t : σ} {a : α} {as : List α} :
    run step s (a :: as) = some t ↔ ∃ s', step s a = some s' ∧ run step s' as = some t := by
  cases h : step s a <;> simp [run, h]

theorem run_append (s : σ) (as bs : List α) :
    run step s (as ++ bs) = (run step s as).bind fun s' => run step s' bs := by
  induction as generalizing s with
  | nil => rfl
  | cons a as ih =>
    cases h : step s a with
    | none => simp [run, h]
    | some s' => simpa [run, h] using ih s'

theorem run_snoc_eq_some {s t : σ} {as : List α} {a : α} :
    run step s (as ++ [a]) = some t ↔ ∃ s', run step s as = some s' ∧ step s' a = some t := by
  rw [run_append]
  cases run step s as with
  | none => simp
  | some s' => cases h : step s' a <;> simp [run, h]

@[simp] theorem meets_nil (s : σ) : Meets step cond s [] := trivial

theorem meets_cons_of_step {s s' : σ} {a : α} {as : List α} (hs : step s a = some s') :
    Meets step cond s (a :: as) ↔ cond s a ∧ Meets step cond s' as := by
  simp [Meets, hs]

/-- **Run rule.** What every step preserves holds after every run. -/
theorem invariant_of_run {I : σ → Prop} (hstep : ∀ s a s', I s → step s a = some s' → I s')
    {s t : σ} {as : List α} (hi : I s) (hr : run step s as = some t) : I t := by
  induction as generalizing s with
  | nil => cases hr; exact hi
  | cons a as ih =>
    obtain ⟨s', hs, hr⟩ := run_cons_eq_some.mp hr
    exact ih (hstep s a s' hi hs) hr

/-- **Guarded run rule.** The steps that meet `cond` preserve `I`, and all steps meet it. -/
theorem invariant_of_meets {I : σ → Prop}
    (hstep : ∀ s a s', I s → cond s a → step s a = some s' → I s')
    {s t : σ} {as : List α} (hi : I s) (hm : Meets step cond s as)
    (hr : run step s as = some t) : I t := by
  induction as generalizing s with
  | nil => cases hr; exact hi
  | cons a as ih =>
    obtain ⟨s', hs, hr⟩ := run_cons_eq_some.mp hr
    obtain ⟨hc, hm⟩ := (meets_cons_of_step hs).mp hm
    exact ih (hstep s a s' hi hc hs) hm hr

theorem meets_of_forall {as : List α} (h : ∀ s, ∀ a ∈ as, cond s a) (s : σ) :
    Meets step cond s as := by
  induction as generalizing s with
  | nil => trivial
  | cons a as ih =>
    refine ⟨h s a (by simp), ?_⟩
    cases hs : step s a with
    | none => trivial
    | some s' => exact ih (fun t b hb => h t b (by simp [hb])) s'

/-- What holds of all actions may be added to the condition on the steps. -/
theorem meets_and_of_forall {P : α → Prop} {s : σ} {as : List α} (hP : ∀ a ∈ as, P a)
    (hm : Meets step cond s as) : Meets step (fun s a => P a ∧ cond s a) s as := by
  induction as generalizing s with
  | nil => trivial
  | cons a as ih =>
    refine ⟨⟨hP a (by simp), hm.1⟩, ?_⟩
    cases hs : step s a with
    | none => trivial
    | some s' => exact ih (fun b hb => hP b (by simp [hb])) ((meets_cons_of_step hs).mp hm).2

end TrafficMonitor.Runs
