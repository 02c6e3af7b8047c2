import TrafficMonitor.Basic.Maps

/-!
# Tallies

`out[key] += value`, over a list. An entry holds the values of its key, counted by a measure `g`
that adds up modulo `n`, as the counters of a machine do.

Proved here:

* `get_tally`: an entry counts what has its key, modulo `n`;
* `total_tally`: all entries together count every item of the list once, if that is below `n`.
-/

namespace TrafficMonitor.Tally

open Maps

variable {A K V W : Type} [DecidableEq K]

/-- `out[key] += value` -/
def bump (f : V → W → V) (d : V) (m : Map K V) (k : K) (w : W) : Map K V :=
  m.insert k (f (get m k d) w)

def tally (f : V → W → V) (d : V) (key : A → K) (value : A → W) (l : List A) : Map K V :=
  l.foldl (fun m a => bump f d m (key a) (value a)) ∅

theorem get_le_total {g : V → Nat} {d : V} (hd : g d = 0) (m : Map K V) (k : K) :
    g (get m k d) ≤ total g m := by
  rw [← total_erase g m k, Maps.get]
  cases m.lookup k with
  | none => simp [hd]
  | some v => simp

section

variable {f : V → W → V} {d : V} {key : A → K} {value : A → W} {g : V → Nat} {h : W → Nat} {n : Nat}

theorem tally_snoc (l : List A) (a : A) :
    tally f d key value (l ++ [a]) = bump f d (tally f d key value l) (key a) (value a) := by
  simp only [tally, List.foldl_append, List.foldl_cons, List.foldl_nil]

/-- **Entries.** -/
theorem get_tally (hd : g d = 0) (hf : ∀ v w, g (f v w) = (g v + h w) % n) (l : List A) (k : K) :
    g (get (tally f d key value l) k d) =
      ((l.filter fun a => key a = k).map fun a => h (value a)).sum % n := by
  induction l using List.reverseRecOn with
  | nil => simp [tally, hd]
  | append_singleton l a ih =>
    rw [tally_snoc, bump, List.filter_append, List.map_append, List.sum_append]
    by_cases hk : key a = k
    · subst hk
      rw [get_insert, hf, ih, Nat.mod_add_mod]
      simp
    · rw [get_insert_ne (Ne.symm hk), ih]
      simp [hk]

/-- **Totals.** -/
theorem total_tally (hd : g d = 0) (hf : ∀ v w, g (f v w) = (g v + h w) % n) {l : List A}
    (hn : (l.map fun a => h (value a)).sum < n) :
    total g (tally f d key value l) = (l.map fun a => h (value a)).sum := by
  induction l using List.reverseRecOn with
  | nil => rfl
  | append_singleton l a ih =>
    rw [List.map_append, List.sum_append, List.map_singleton, List.sum_singleton] at hn ⊢
    have hl := ih (by omega)
    -- the entry is part of the total, so that it has room as well
    have hroom := get_le_total hd (tally f d key value l) (key a)
    have hadd := total_insert_get hd (tally f d key value l) (key a)
      (f (get (tally f d key value l) (key a) d) (value a))
    rw [hf, Nat.mod_eq_of_lt (by omega)] at hadd
    rw [tally_snoc, bump]
    omega

end

end TrafficMonitor.Tally
