import TrafficMonitor.Basic.Bytes

/-!
# The members of a flat JSON object

An object whose values are texts in quotes or have no quotes, in which a reader looks for
`"name":` without parsing what stands in front. The quotes before and behind a name and a value
are the only ones, so that the search can only stop at a name.

Proved here:

* `findAfter_object`: the search finds the first member of its name;
* `findAfter_object_none`: or nothing, if there is none.
-/

namespace TrafficMonitor.Members

open Bytes

inductive Value
  | raw (s : Bytes)
  | str (s : Bytes)
  deriving DecidableEq, Repr

def Value.text : Value → Bytes
  | .raw s => s
  | .str s => QUOTE :: (s ++ [QUOTE])

/-- No quote inside. -/
def Value.Plain : Value → Prop
  | .raw s => QUOTE ∉ s
  | .str s => QUOTE ∉ s

structure Member where
  name : Bytes
  value : Value
  deriving DecidableEq, Repr

def Member.text (m : Member) : Bytes := QUOTE :: (m.name ++ QUOTE :: COLON :: m.value.text)

def Member.Plain (m : Member) : Prop := QUOTE ∉ m.name ∧ m.value.Plain

/-- The members behind the first one, up to the end of the object. -/
def tailText : List Member → Bytes
  | [] => [RBRACE]
  | m :: ms => COMMA :: (m.text ++ tailText ms)

def object (m : Member) (ms : List Member) : Bytes := LBRACE :: (m.text ++ tailText ms)

/-- What the search looks for, and what it wants to find behind it. -/
def label (name more : Bytes) : Bytes := QUOTE :: (name ++ QUOTE :: COLON :: more)

/-! ## The search -/

theorem stripPrefix_eq_none {n s : Bytes} (h : ¬n <+: s) : stripPrefix n s = none := by
  rw [← List.isPrefixOf_iff_prefix] at h
  simp [stripPrefix, h]

/-- Texts before their first quotes. -/
theorem cut_quote {a b s t : Bytes} (ha : QUOTE ∉ a) (hb : QUOTE ∉ b)
    (h : a ++ QUOTE :: s = b ++ QUOTE :: t) : a = b ∧ s = t := by
  induction a generalizing b with
  | nil =>
    cases b with
    | nil => exact ⟨rfl, by simpa using h⟩
    | cons c b =>
      injection h with hc
      exact absurd hc (fun e => hb (e ▸ List.mem_cons_self))
  | cons d a ih =>
    cases b with
    | nil =>
      injection h with hd
      exact absurd hd.symm (fun e => ha (e ▸ List.mem_cons_self))
    | cons c b =>
      injection h with hd h
      subst hd
      obtain ⟨rfl, e⟩ := ih (fun m => ha (List.mem_cons_of_mem _ m))
        (fun m => hb (List.mem_cons_of_mem _ m)) h
      exact ⟨rfl, e⟩

/-- A name that the search can stop at: it has no quotes and none of the marks of an object. -/
structure Key (name : Bytes) : Prop where
  ne : name ≠ []
  quote : QUOTE ∉ name
  colon : COLON ∉ name
  comma : COMMA ∉ name
  rbrace : RBRACE ∉ name

section Search

variable {name more : Bytes}

theorem findAfter_before {a : Bytes} (ha : QUOTE ∉ a) (s : Bytes) :
    findAfter (label name more) (a ++ s) = findAfter (label name more) s := findAfter_skip ha

theorem findAfter_mark {c : UInt8} (hc : c ≠ QUOTE) (s : Bytes) :
    findAfter (label name more) (c :: s) = findAfter (label name more) s :=
  findAfter_cons (stripPrefix_head hc.symm _ _)

theorem findAfter_member_eq (m : Member) {s t : Bytes} (h : m.value.text ++ s = more ++ t) :
    findAfter (label m.name more) (m.text ++ s) = some t := by
  have e : m.text ++ s = label m.name more ++ t := by
    simp [Member.text, label, h]
  rw [e, findAfter_append _ _ (by simp [label])]

theorem findAfter_object_first {g : Member} {back : List Member} {s t : Bytes}
    (h : g.value.text ++ (tailText back ++ s) = more ++ t) :
    findAfter (label g.name more) (object g back ++ s) = some t := by
  rw [object, List.cons_append, List.append_assoc, findAfter_mark (by decide),
    findAfter_member_eq g h]

variable (hk : Key name)
include hk

/-- At a quote the search stops only before its name. -/
theorem findAfter_quote {a s : Bytes} (ha : QUOTE ∉ a) (h : a = name → ¬COLON :: more <+: s) :
    findAfter (label name more) (QUOTE :: (a ++ QUOTE :: s)) =
      findAfter (label name more) (QUOTE :: s) := by
  rw [findAfter_cons, findAfter_before ha]
  refine stripPrefix_eq_none ?_
  rintro ⟨t, ht⟩
  simp only [label, List.cons_append, List.append_assoc, List.cons.injEq, true_and] at ht
  obtain ⟨rfl, e⟩ := cut_quote hk.quote ha ht
  exact h rfl ⟨t, e⟩

/-- And not at one that is followed by a mark. -/
theorem findAfter_closing {c : UInt8} (hc : c ∉ name) (hq : c ≠ QUOTE) (s : Bytes) :
    findAfter (label name more) (QUOTE :: c :: s) = findAfter (label name more) s := by
  rw [findAfter_cons, findAfter_mark hq]
  refine stripPrefix_eq_none ?_
  rintro ⟨t, ht⟩
  obtain ⟨d, n, rfl⟩ := List.exists_cons_of_ne_nil hk.ne
  injection ht with _ ht
  injection ht with hd
  exact hc (hd ▸ List.mem_cons_self)

theorem findAfter_value {v : Value} (hv : v.Plain) {c : UInt8} (hc : c ∉ name) (hq : c ≠ QUOTE)
    (hcolon : c ≠ COLON) (s : Bytes) :
    findAfter (label name more) (v.text ++ c :: s) = findAfter (label name more) s := by
  cases v with
  | raw r => exact (findAfter_before hv _).trans (findAfter_mark hq s)
  | str r =>
    have hstop : r = name → ¬COLON :: more <+: c :: s := by
      rintro - ⟨t, ht⟩
      injection ht with ht
      exact hcolon ht.symm
    have e : Value.text (.str r) ++ c :: s = QUOTE :: (r ++ QUOTE :: c :: s) := by simp [Value.text]
    rw [e, findAfter_quote hk hv hstop, findAfter_closing hk hc hq]

/-- A member with another name is passed, with the mark behind it. -/
theorem findAfter_member_ne {m : Member} (hm : m.Plain) (hne : m.name ≠ name) {c : UInt8}
    (hc : c ∉ name) (hq : c ≠ QUOTE) (hcolon : c ≠ COLON) (s : Bytes) :
    findAfter (label name more) (m.text ++ c :: s) = findAfter (label name more) s := by
  have e : m.text ++ c :: s = QUOTE :: (m.name ++ QUOTE :: COLON :: (m.value.text ++ c :: s)) := by
    simp [Member.text]
  have hstop : m.name = name → ¬COLON :: more <+: COLON :: (m.value.text ++ c :: s) :=
    fun h => absurd h hne
  rw [e, findAfter_quote hk hm.1 hstop, findAfter_closing hk hk.colon (by decide),
    findAfter_value hk hm.2 hc hq hcolon]

/-- Members with other names are passed. -/
theorem findAfter_pass {m : Member} (hm : m.Plain) (hne : m.name ≠ name) (ms : List Member)
    (s : Bytes) : findAfter (label name more) (m.text ++ (tailText ms ++ s)) =
      findAfter (label name more) (tailText ms ++ s) := by
  cases ms with
  | nil =>
    rw [tailText, List.cons_append, findAfter_member_ne hk hm hne hk.rbrace (by decide) (by decide),
      findAfter_mark (by decide)]
  | cons m' ms =>
    rw [tailText, List.cons_append, findAfter_member_ne hk hm hne hk.comma (by decide) (by decide),
      findAfter_mark (by decide)]

theorem findAfter_tail {front : List Member} (hf : ∀ m ∈ front, m.Plain ∧ m.name ≠ name)
    (ms : List Member) (s : Bytes) : findAfter (label name more) (tailText (front ++ ms) ++ s) =
      findAfter (label name more) (tailText ms ++ s) := by
  induction front with
  | nil => rfl
  | cons m front ih =>
    obtain ⟨hm, hf⟩ := List.forall_mem_cons.mp hf
    rw [List.cons_append, tailText, List.cons_append, List.append_assoc, findAfter_mark (by decide),
      findAfter_pass hk hm.1 hm.2, ih hf]

theorem findAfter_object_tail {m : Member} {front : List Member}
    (hf : ∀ x ∈ m :: front, x.Plain ∧ x.name ≠ name) (ms : List Member) (s : Bytes) :
    findAfter (label name more) (object m (front ++ ms) ++ s) =
      findAfter (label name more) (tailText ms ++ s) := by
  obtain ⟨hm, hf⟩ := List.forall_mem_cons.mp hf
  rw [object, List.cons_append, List.append_assoc, findAfter_mark (by decide),
    findAfter_pass hk hm.1 hm.2, findAfter_tail hk hf]

/-- **A name that no member has** is not found. -/
theorem findAfter_object_none {m : Member} {ms : List Member}
    (hf : ∀ x ∈ m :: ms, x.Plain ∧ x.name ≠ name) {s : Bytes} (hs : QUOTE ∉ s) :
    findAfter (label name more) (object m ms ++ s) = none := by
  have e := @findAfter_object_tail name more hk m ms hf [] s
  rw [List.append_nil, tailText, List.cons_append, findAfter_mark (by decide), List.nil_append] at e
  have hnil : findAfter (label name more) (s ++ []) = none := findAfter_before hs []
  rw [e, ← hnil, List.append_nil]

end Search

/-- **The first member of a name is found** behind members of other names. -/
theorem findAfter_object {more : Bytes} {m g : Member} {front back : List Member} (hk : Key g.name)
    (hf : ∀ x ∈ m :: front, x.Plain ∧ x.name ≠ g.name) {s t : Bytes}
    (h : g.value.text ++ (tailText back ++ s) = more ++ t) :
    findAfter (label g.name more) (object m (front ++ g :: back) ++ s) = some t := by
  rw [findAfter_object_tail hk hf, tailText, List.cons_append, List.append_assoc,
    findAfter_mark (by decide), findAfter_member_eq g h]

end TrafficMonitor.Members
