import Mathlib.Data.List.Basic
import Mathlib.Tactic.Common

/-!
# Lines of a stream

A stream over any alphabet is cut at a separator `nl` into complete lines and an
unfinished rest. Proved here:

* `split_join_append`, `split_spec`: `split` is the only such decomposition;
* `split_append`: cutting a longer stream is cutting its first part and going on
  from the rest;
* `feedAll_eq`: feeding a stream in chunks gives the lines of the whole stream,
  however it is cut.
-/

namespace TrafficMonitor.Lines

variable {α : Type*}

/-- Lines as they stand in a stream, each followed by its separator. -/
def join (nl : α) (ls : List (List α)) : List α := ls.flatMap (· ++ [nl])

@[simp] theorem join_nil (nl : α) : join nl [] = [] := rfl

@[simp] theorem join_cons (nl : α) (l : List α) (ls : List (List α)) :
    join nl (l :: ls) = l ++ nl :: join nl ls := by simp [join]

@[simp] theorem join_append (nl : α) (ls ms : List (List α)) :
    join nl (ls ++ ms) = join nl ls ++ join nl ms := by simp [join]

/-- A prefix without separators lies before the first separator. -/
theorem prefix_append_iff {nl : α} {w t s : List α} (hw : nl ∉ w) (hs : ∀ c ∈ s.head?, c = nl) :
    w <+: t ++ s ↔ w <+: t := by
  induction w generalizing t with
  | nil => simp
  | cons c w ih =>
    simp only [List.mem_cons, not_or] at hw
    cases t with
    | nil =>
      cases s with
      | nil => simp
      | cons d s =>
        have hd : d = nl := hs d (by simp)
        have hcd : ¬ c = d := fun e => hw.1 (hd ▸ e.symm)
        simp [List.cons_prefix_cons, hcd]
    | cons d t => simp [List.cons_prefix_cons, ih hw.2]

variable [DecidableEq α]

/-- The text before and after the first occurrence of `c`. -/
def cut (c : α) : List α → Option (List α × List α)
  | [] => none
  | x :: xs => if x = c then some ([], xs) else (cut c xs).map fun p => (x :: p.1, p.2)

/-- Complete lines, without their separators, and the unfinished rest. -/
def split (nl : α) : List α → List (List α) × List α
  | [] => ([], [])
  | x :: xs =>
    let t := split nl xs
    if x = nl then ([] :: t.1, t.2)
    else match t.1 with
      | [] => ([], x :: t.2)
      | l :: ls => ((x :: l) :: ls, t.2)

/-- Go on from an unfinished rest with one more chunk. -/
def feed (nl : α) (rest chunk : List α) : List (List α) × List α := split nl (rest ++ chunk)

def feedAll (nl : α) : List α → List (List α) → List (List α) × List α
  | rest, [] => ([], rest)
  | rest, c :: cs =>
    let t := feed nl rest c
    let u := feedAll nl t.2 cs
    (t.1 ++ u.1, u.2)

/-! ## Cutting at one separator -/

theorem cut_append (c : α) (a b : List α) (h : c ∉ a) : cut c (a ++ c :: b) = some (a, b) := by
  induction a with
  | nil => simp [cut]
  | cons x a ih =>
    simp only [List.mem_cons, not_or] at h
    simp [cut, Ne.symm h.1, ih h.2]

theorem cut_eq_none {c : α} {s : List α} : cut c s = none ↔ c ∉ s := by
  induction s with
  | nil => simp [cut]
  | cons x s ih =>
    by_cases hx : x = c
    · simp [cut, hx]
    · simp [cut, hx, ih, Ne.symm hx]

theorem cut_eq_some {c : α} {s a b : List α} :
    cut c s = some (a, b) ↔ s = a ++ c :: b ∧ c ∉ a := by
  constructor
  · intro h
    induction s generalizing a with
    | nil => cases h
    | cons x s ih =>
      rw [cut] at h
      split at h
      next hx =>
        obtain ⟨rfl, rfl⟩ := Prod.mk.inj (Option.some.inj h)
        simp [hx]
      next hx =>
        obtain ⟨⟨a', b'⟩, hp, e⟩ := Option.map_eq_some_iff.mp h
        obtain ⟨rfl, rfl⟩ := Prod.mk.inj e
        obtain ⟨rfl, hc⟩ := ih hp
        exact ⟨rfl, by simp [Ne.symm hx, hc]⟩
  · rintro ⟨rfl, h⟩
    exact cut_append c a b h

theorem cut_length {c : α} {s a b : List α} (h : cut c s = some (a, b)) : b.length < s.length := by
  rw [(cut_eq_some.mp h).1, List.length_append, List.length_cons]
  omega

/-! ## The decomposition and its uniqueness -/

theorem split_of_not_mem (nl : α) (r : List α) (h : nl ∉ r) : split nl r = ([], r) := by
  induction r with
  | nil => rfl
  | cons x r ih =>
    simp only [List.mem_cons, not_or] at h
    simp [split, ih h.2, Ne.symm h.1]

theorem split_line_append (nl : α) (l s : List α) (h : nl ∉ l) :
    split nl (l ++ nl :: s) = (l :: (split nl s).1, (split nl s).2) := by
  induction l with
  | nil => simp [split]
  | cons x l ih =>
    simp only [List.mem_cons, not_or] at h
    simp [split, ih h.2, Ne.symm h.1]

theorem split_join_append (nl : α) (ls : List (List α)) (r : List α)
    (hls : ∀ l ∈ ls, nl ∉ l) (hr : nl ∉ r) : split nl (join nl ls ++ r) = (ls, r) := by
  induction ls with
  | nil => simpa using split_of_not_mem nl r hr
  | cons l ls ih =>
    have hl := hls l (by simp)
    have := ih fun m hm => hls m (by simp [hm])
    simp only [join_cons, List.append_assoc, List.cons_append]
    rw [split_line_append nl l _ hl, this]

theorem split_join (nl : α) (ls : List (List α)) (hls : ∀ l ∈ ls, nl ∉ l) :
    split nl (join nl ls) = (ls, []) := by
  simpa using split_join_append nl ls [] hls (by simp)

/-- What `split` returns: the lines and the rest make up the stream again, and none of
them holds a separator. -/
theorem split_spec (nl : α) (s : List α) :
    s = join nl (split nl s).1 ++ (split nl s).2 ∧
      (∀ l ∈ (split nl s).1, nl ∉ l) ∧ nl ∉ (split nl s).2 := by
  induction s with
  | nil => simp [split]
  | cons x s ih =>
    obtain ⟨hs, hl, hr⟩ := ih
    by_cases hx : x = nl
    · subst hx
      simp only [split, ↓reduceIte, join_cons, List.nil_append, List.cons_append]
      refine ⟨by rw [← hs], ?_, hr⟩
      intro l hm
      rcases List.mem_cons.mp hm with rfl | hm
      · simp
      · exact hl l hm
    · have hx' := Ne.symm hx
      cases h : (split nl s).1 with
      | nil =>
        rw [h] at hs
        simp only [split, hx, ↓reduceIte, h]
        exact ⟨by simpa using hs, by simp, by simp [hx', hr]⟩
      | cons l ls =>
        rw [h] at hs hl
        simp only [split, hx, ↓reduceIte, h]
        refine ⟨by simpa using hs, ?_, hr⟩
        intro m hm
        rcases List.mem_cons.mp hm with rfl | hm
        · simp [hx', hl l (by simp)]
        · exact hl m (by simp [hm])

/-! ## The pieces between separators -/

/-- Everything between separators; a text without one is a single piece. -/
def parts (nl : α) (s : List α) : List (List α) := (split nl s).1 ++ [(split nl s).2]

@[simp] theorem parts_nil (nl : α) : parts nl [] = [[]] := rfl

@[simp] theorem parts_sep (nl : α) (s : List α) : parts nl (nl :: s) = [] :: parts nl s := by
  simp [parts, split]

theorem parts_ne_nil (nl : α) (s : List α) : parts nl s ≠ [] := by simp [parts]

/-- A character before the text is a character of its first piece. -/
theorem parts_cons {nl x : α} (h : x ≠ nl) {s l : List α} {ls : List (List α)}
    (hs : parts nl s = l :: ls) : parts nl (x :: s) = (x :: l) :: ls := by
  simp only [parts, split, h, ↓reduceIte] at hs ⊢
  cases hfst : (split nl s).1 with
  | nil =>
    simp only [hfst, List.nil_append, List.cons.injEq] at hs
    simp [hs]
  | cons m ms =>
    simp only [hfst, List.cons_append, List.cons.injEq] at hs
    simp [hs]

theorem eq_join_of_parts {nl : α} {s r : List α} (ls : List (List α))
    (h : parts nl s = ls ++ [r]) : s = join nl ls ++ r := by
  obtain ⟨hl, hr⟩ := List.append_inj' h rfl
  rw [← hl, ← List.singleton_inj.mp hr]
  exact (split_spec nl s).1

theorem split_snd_not_mem (nl : α) (s : List α) : nl ∉ (split nl s).2 := (split_spec nl s).2.2

/-- **Going on from the rest.** -/
theorem split_append (nl : α) (s t : List α) :
    split nl (s ++ t) =
      ((split nl s).1 ++ (split nl ((split nl s).2 ++ t)).1, (split nl ((split nl s).2 ++ t)).2) := by
  obtain ⟨hs, hl, _⟩ := split_spec nl s
  obtain ⟨ht, hm, hr⟩ := split_spec nl ((split nl s).2 ++ t)
  have e : s ++ t = join nl ((split nl s).1 ++ (split nl ((split nl s).2 ++ t)).1) ++
      (split nl ((split nl s).2 ++ t)).2 := by
    rw [join_append, List.append_assoc, ← ht, ← List.append_assoc, ← hs]
  conv_lhs => rw [e]
  apply split_join_append nl _ _ _ hr
  intro l h
  rcases List.mem_append.mp h with h | h
  · exact hl l h
  · exact hm l h

/-- **Chunks do not matter.** Feeding chunk by chunk gives the lines and the rest of the
whole stream. -/
theorem feedAll_eq (nl : α) (rest : List α) (cs : List (List α)) (h : nl ∉ rest) :
    feedAll nl rest cs = split nl (rest ++ cs.flatten) := by
  induction cs generalizing rest with
  | nil => simp [feedAll, split_of_not_mem nl rest h]
  | cons c cs ih =>
    simp only [feedAll, feed, List.flatten_cons, ← List.append_assoc]
    rw [split_append nl (rest ++ c), ih _ (split_snd_not_mem nl _)]

/-- The rest is empty exactly when the stream is empty or ends with a separator. -/
theorem split_snd_eq_nil (nl : α) (s : List α) :
    (split nl s).2 = [] ↔ s = [] ∨ s.getLast? = some nl := by
  obtain ⟨hs, _, hr⟩ := split_spec nl s
  constructor
  · intro h
    rw [h, List.append_nil] at hs
    rcases List.eq_nil_or_concat (split nl s).1 with e | ⟨ls, l, e⟩
    · exact .inl (by rw [hs, e]; rfl)
    · right
      rw [hs, e]
      simp
  · rintro (rfl | h)
    · rfl
    · by_contra hne
      rw [hs, List.getLast?_append_of_ne_nil _ hne] at h
      exact hr (List.mem_of_getLast? h)

end TrafficMonitor.Lines
