import Mathlib.Data.List.TakeWhile
import Mathlib.Tactic.Common

/-!
# Words of a text

A text over any alphabet is cut into words at runs of separators. Proved here:

* `words_sep_append`, `words_word_append`: the two equations that compute `words`;
* `exists_word`: how a text begins;
* `words_eq_nil`: a text without words holds separators only.
-/

namespace TrafficMonitor.Words

variable {α : Type*} {sep : α → Bool}

/-- The words of a text, in order. -/
def words (sep : α → Bool) (s : List α) : List (List α) := (s.splitOnP sep).filter (!·.isEmpty)

/-- A word is not empty and free of separators. -/
def IsWord (sep : α → Bool) (w : List α) : Prop := w ≠ [] ∧ ∀ c ∈ w, sep c = false

@[simp] theorem words_nil : words sep [] = [] := by simp [words, List.splitOnP_nil]

theorem words_cons_sep {c : α} (hc : sep c = true) (s : List α) :
    words sep (c :: s) = words sep s := by
  simp [words, List.splitOnP_cons_eq_if_modifyHead, hc]

theorem words_sep_append {s : List α} (hs : ∀ c ∈ s, sep c = true) (t : List α) :
    words sep (s ++ t) = words sep t := by
  induction s with
  | nil => rfl
  | cons c s ih =>
    rw [List.cons_append, words_cons_sep (hs c (by simp)), ih fun d hd => hs d (by simp [hd])]

/-- A text without separators is one piece. -/
private theorem splitOnP_of_forall_not {w : List α} (hw : ∀ c ∈ w, sep c = false) :
    w.splitOnP sep = [w] := by
  induction w with
  | nil => rfl
  | cons c w ih =>
    rw [List.splitOnP_cons_eq_if_modifyHead, if_neg (by simp [hw c (by simp)]),
      ih fun d hd => hw d (by simp [hd])]
    rfl

theorem words_of_isWord {w : List α} (hw : IsWord sep w) : words sep w = [w] := by
  simp [words, splitOnP_of_forall_not hw.2, hw.1]

/-- A word followed by a separator, or ending the text, is the first word. -/
theorem words_word_append {w t : List α} (hw : IsWord sep w) (ht : ∀ c ∈ t.head?, sep c = true) :
    words sep (w ++ t) = w :: words sep t := by
  cases t with
  | nil => simp [words_of_isWord hw]
  | cons c t =>
    have hc : sep c = true := ht c (by simp)
    rw [words_cons_sep hc, words, List.splitOnP_append_cons w t hc, List.filter_append,
      ← words, ← words, words_of_isWord hw]
    rfl

/-- Every text is a run of separators, or such a run, a word and the rest. -/
theorem exists_word (sep : α → Bool) (s : List α) :
    (∀ c ∈ s, sep c = true) ∨
      ∃ a w t, s = a ++ w ++ t ∧ (∀ c ∈ a, sep c = true) ∧ IsWord sep w ∧
        ∀ c ∈ t.head?, sep c = true := by
  rcases hb : s.dropWhile sep with _ | ⟨x, b⟩
  · exact .inl (List.dropWhile_eq_nil_iff.mp hb)
  · right
    have hx : sep x = false := by
      have := List.head_dropWhile_not sep (l := s) (by simp [hb])
      simpa [hb] using this
    refine ⟨s.takeWhile sep, (x :: b).takeWhile (!sep ·), (x :: b).dropWhile (!sep ·), ?_, ?_,
      ⟨by simp [hx], ?_⟩, ?_⟩
    · rw [List.append_assoc, List.takeWhile_append_dropWhile, ← hb,
        List.takeWhile_append_dropWhile]
    · exact fun c hc => List.mem_takeWhile_imp hc
    · exact fun c hc => by simpa using List.mem_takeWhile_imp hc
    · intro c hc
      have hne : (x :: b).dropWhile (!sep ·) ≠ [] := by rintro e; simp [e] at hc
      have := List.head_dropWhile_not (!sep ·) hne
      rw [List.head?_eq_some_head hne] at hc
      obtain rfl := Option.mem_some.mp hc
      simpa using this

/-- A text without words holds separators only. -/
theorem words_eq_nil {s : List α} : words sep s = [] ↔ ∀ c ∈ s, sep c = true := by
  constructor
  · intro h
    rcases exists_word sep s with hs | ⟨a, w, t, rfl, ha, hw, ht⟩
    · exact hs
    · rw [List.append_assoc, words_sep_append ha, words_word_append hw ht] at h
      cases h
  · intro h
    simpa using words_sep_append h []

end TrafficMonitor.Words
