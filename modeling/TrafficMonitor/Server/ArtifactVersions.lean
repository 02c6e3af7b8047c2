import TrafficMonitor.Basic.Signed
import TrafficMonitor.Trust.Rollback

/-!
# Versions of client artifacts

Artifacts in the update directory carry their version in the file name
(`client_push.hpp`). The dashboard compares such versions with `semverCmp`
(`web_dashboard.cpp`), a push is checked with `parseSemver` and the order of `Semver`
(`server_upgrade.hpp`).

Proved here:

* `stoul_isSome_iff`: what the number conversion of `parseSemver` takes;
* `semverCmp_eq`: on versions of the grammar, the comparison of the component values, as
  long as they fit an `int`;
* `versions_agree_iff`: on which texts `parseSemver` reads exactly the versions, and for
  which versions of file names the two comparisons give the same verdict.
-/

namespace TrafficMonitor.Artifacts

open Bytes Rollback

def DOT : UInt8 := 46
def HYPHEN : UInt8 := 45
def INT_MAX : Nat := 2 ^ 31 - 1

/-! ## The code -/

/-- The lambda `parse` of `semverCmp`: `r` are the components so far, in `int`s. `none` where
an `int` overflows, which leaves the behaviour undefined. -/
def parseInts (part : Nat) (r : List Nat) : Bytes → Option (List Nat)
  | [] => some r
  | c :: s =>
    if c = DOT && part < 3 then parseInts (part + 1) r s
    else if isDigit c then
      let n := r.getD part 0 * 10 + (c.toNat - 48)
      if INT_MAX < n then none else parseInts part (r.set part n) s
    else parseInts part r s

/-- The loop over the four components. -/
def cmpInts : List Nat → List Nat → Int
  | a :: as, b :: bs => if a < b then -1 else if b < a then 1 else cmpInts as bs
  | _, _ => 0

def semverCmp (a b : Bytes) : Option Int := do
  let pa ← parseInts 0 [0, 0, 0, 0] a
  let pb ← parseInts 0 [0, 0, 0, 0] b
  some (cmpInts pa pb)

/-- The text before and after the last `c`. -/
def cutLast (c : UInt8) (s : Bytes) : Option (Bytes × Bytes) :=
  (Lines.cut c s.reverse).map fun p => (p.2.reverse, p.1.reverse)

/-- The loop over the characters of a version. -/
def versionLoop (dots : Nat) (lastWasDot : Bool) : Bytes → Bool
  | [] => !lastWasDot && 2 ≤ dots && dots ≤ 3
  | c :: s =>
    if c = DOT then if lastWasDot then false else versionLoop (dots + 1) true s
    else if !isDigit c then false
    else versionLoop dots false s

/-- `N.N.N` or `N.N.N.N` -/
def isFileVersion (version : Bytes) : Bool := versionLoop 0 true version

/-- What a file name says; only versions of the grammar get here. -/
structure ClientBinaryInfo where
  platform : Bytes
  version : Bytes
  filename : Bytes
  isWindows : Bool
  version_ok : isFileVersion version = true

def parseClientBinaryFilename (name : Bytes) : Option ClientBinaryInfo := do
  let rest ← stripPrefix (ascii "ntm-client-") name
  let isWindows := 4 < rest.length && rest.rtake 4 = ascii ".exe"
  let rest := if isWindows then rest.rdrop 4 else rest
  let (platform, version) ← cutLast HYPHEN rest
  if platform = [] || version = [] then none
  else if h : isFileVersion version then
    if HYPHEN ∉ platform then none else some ⟨platform, version, name, isWindows, h⟩
  else none

def isKnownClientPlatform (platform : Bytes) : Bool :=
  platform = ascii "linux-amd64" || platform = ascii "windows-amd64"

/-! ## Versions -/

def components (s : Bytes) : List Bytes := Lines.parts DOT s

/-- A plain decimal number of 32 bits. -/
def IsPlain (c : Bytes) : Prop := c ≠ [] ∧ (∀ b ∈ c, isDigit b = true) ∧ digitsValue c < 2 ^ 32

/-- The version of three or four numbers. -/
def versionOf : List Nat → Option Semver
  | [a, b, c] => some ⟨a, b, c, 0⟩
  | [a, b, c, d] => some ⟨a, b, c, d⟩
  | _ => none

/-- The text is the version: plain components with its values. -/
def IsVersion (s : Bytes) (v : Semver) : Prop :=
  (∀ c ∈ components s, IsPlain c) ∧ versionOf ((components s).map digitsValue) = some v

/-- `parseSemver` reads exactly the version that the text is. -/
def Exact (s : Bytes) : Prop := ∀ v, parseSemver s = some v ↔ IsVersion s v

/-- A text that is no version is parsed as version 0. -/
def semverOf (s : Bytes) : Semver := (parseSemver s).getD ⟨0, 0, 0, 0⟩

/-- The dashboard's comparison and that of the parsed versions give the same verdict. -/
def SameVerdict (a b : Bytes) : Prop :=
  ∃ r, semverCmp a b = some r ∧ (r = 1 ↔ (semverOf a).gt (semverOf b) = true) ∧
    (r = -1 ↔ (semverOf b).gt (semverOf a) = true) ∧ (r = 0 ↔ semverOf a = semverOf b)

/-- Every component fits an `int`. -/
def FitsInt (s : Bytes) : Prop := ∀ c ∈ components s, digitsValue c ≤ INT_MAX

/-- What `std::stoul` takes to its end: blanks, a sign, and digits of at most 64 bits. -/
def Lenient (c : Bytes) : Prop :=
  ∃ blanks sign digits, c = blanks ++ sign ++ digits ∧ (∀ b ∈ blanks, isSpace b = true) ∧
    (sign = [] ∨ sign = [43] ∨ sign = [45]) ∧ digits ≠ [] ∧ (∀ b ∈ digits, isDigit b = true) ∧
    digitsValue digits < 2 ^ 64

/-! ## Numbers -/

theorem isSpace_of_isDigit {b : UInt8} (h : isDigit b = true) : isSpace b = false := by
  simp only [isDigit, Bool.and_eq_true, decide_eq_true_eq, UInt8.le_iff_toNat_le,
    UInt8.reduceToNat] at h
  simp only [isSpace, Bool.or_eq_false_iff, decide_eq_false_iff_not, Bool.and_eq_false_iff,
    UInt8.le_iff_toNat_le, UInt8.reduceToNat, ← UInt8.toNat_inj, SP]
  omega

private theorem dropWhile_blanks {blanks t : Bytes} (hb : ∀ b ∈ blanks, isSpace b = true)
    (ht : ∀ b ∈ t.head?, isSpace b = false) : (blanks ++ t).dropWhile isSpace = t := by
  rw [List.dropWhile_append_of_pos hb]
  cases t with
  | nil => rfl
  | cons b t => simp [ht b (by simp)]

private theorem head?_digit {digits : Bytes} (h : ∀ b ∈ digits, isDigit b = true) :
    digits.head? ≠ some 45 ∧ digits.head? ≠ some 43 := by
  constructor <;> intro he <;> exact absurd (h _ (List.mem_of_head? he)) (by decide)

/-- The conversion after blanks and a sign. -/
private theorem stoul_lenient {blanks sign digits : Bytes} (hb : ∀ b ∈ blanks, isSpace b = true)
    (hs : sign = [] ∨ sign = [43] ∨ sign = [45]) (hne : digits ≠ [])
    (hd : ∀ b ∈ digits, isDigit b = true) (hv : digitsValue digits < 2 ^ 64) :
    stoul (blanks ++ sign ++ digits) = some ((if sign = [45] then
      (2 ^ 64 - digitsValue digits) % 2 ^ 64 else digitsValue digits) % 2 ^ 32) := by
  have hall : digits.all isDigit = true := List.all_eq_true.mpr hd
  have hhead : ∀ b ∈ (sign ++ digits).head?, isSpace b = false := by
    intro b hb
    rcases hs with rfl | rfl | rfl
    · exact isSpace_of_isDigit (hd b (List.mem_of_head? hb))
    · cases hb
      decide
    · cases hb
      decide
  rw [List.append_assoc, stoul, dropWhile_blanks hb hhead]
  rcases hs with rfl | rfl | rfl
  · simpa [head?_digit hd, hne, hall] using hv
  · simpa [hne, hall] using hv
  · simpa [hne, hall] using hv

theorem stoul_isSome_iff {c : Bytes} : (stoul c).isSome = true ↔ Lenient c := by
  constructor
  · intro h
    have happ : c = c.takeWhile isSpace ++ c.dropWhile isSpace := by simp
    have hblank : ∀ b ∈ c.takeWhile isSpace, isSpace b = true := fun b hb =>
      List.mem_takeWhile_imp hb
    unfold stoul at h
    generalize c.dropWhile isSpace = t at happ h
    have number : ∀ ds : Bytes, (if (ds.isEmpty || !ds.all isDigit) = true then none
        else if 2 ^ 64 ≤ digitsValue ds then none else some (((if t.head? = some 45 then
          (2 ^ 64 - digitsValue ds) % 2 ^ 64 else digitsValue ds) % 2 ^ 32))).isSome = true →
        ds ≠ [] ∧ (∀ b ∈ ds, isDigit b = true) ∧ digitsValue ds < 2 ^ 64 := by
      intro ds hds
      split at hds
      · simp at hds
      rename_i h₁
      split at hds
      · simp at hds
      rename_i h₂
      simp only [Bool.or_eq_true, not_or, List.isEmpty_iff, Bool.not_eq_true', Bool.not_eq_false,
        List.all_eq_true] at h₁
      exact ⟨h₁.1, h₁.2, Nat.not_le.mp h₂⟩
    by_cases hsign : t.head? = some 45 ∨ t.head? = some 43
    · obtain ⟨b, ds, rfl⟩ : ∃ b ds, t = b :: ds := by
        cases t with
        | nil => simp at hsign
        | cons b ds => exact ⟨b, ds, rfl⟩
      simp only [hsign, ↓reduceIte] at h
      refine ⟨c.takeWhile isSpace, [b], ds, by simpa using happ, hblank, ?_, number ds (by simpa using h)⟩
      simp only [List.head?_cons, Option.some.injEq] at hsign
      rcases hsign with rfl | rfl
      · exact .inr (.inr rfl)
      · exact .inr (.inl rfl)
    · simp only [hsign, ↓reduceIte] at h
      exact ⟨c.takeWhile isSpace, [], t, by simpa using happ, hblank, .inl rfl, number t h⟩
  · rintro ⟨blanks, sign, digits, rfl, hb, hs, hne, hd, hv⟩
    rw [stoul_lenient hb hs hne hd hv]
    rfl

theorem stoul_plain {c : Bytes} (h : IsPlain c) : stoul c = some (digitsValue c) := by
  have hv : digitsValue c < 2 ^ 64 := h.2.2.trans (by decide)
  have he := @stoul_lenient [] [] c (by simp) (.inl rfl) h.1 h.2.1 hv
  rw [if_neg (by decide), Nat.mod_eq_of_lt h.2.2] at he
  exact he

/-! ## What is read as a version -/

private theorem mapM_eq_some {α β : Type} {f : α → Option β} {l : List α} {ns : List β} :
    l.mapM f = some ns ↔ List.Forall₂ (fun x n => f x = some n) l ns := by
  induction l generalizing ns with
  | nil => cases ns <;> simp
  | cons x l ih =>
    simp only [List.mapM_cons, Option.bind_eq_bind, Option.bind_eq_some_iff, Option.pure_def,
      Option.some.injEq, ih]
    constructor
    · rintro ⟨n, hn, ns', hns, rfl⟩
      exact .cons hn hns
    · intro hall
      cases hall with
      | cons hn hns => exact ⟨_, hn, _, hns, rfl⟩

private theorem exists_mapM {α β : Type} {f : α → Option β} {l : List α}
    (h : ∀ x ∈ l, (f x).isSome = true) : ∃ ns, l.mapM f = some ns := by
  induction l with
  | nil => exact ⟨[], rfl⟩
  | cons x l ih =>
    obtain ⟨n, hn⟩ := Option.isSome_iff_exists.mp (h x (by simp))
    obtain ⟨ns, hns⟩ := ih fun y hy => h y (by simp [hy])
    refine ⟨n :: ns, ?_⟩
    simp [hn, hns]

private theorem isSome_of_mapM {α β : Type} {f : α → Option β} {l : List α} {ns : List β}
    (h : l.mapM f = some ns) : ∀ x ∈ l, (f x).isSome = true := by
  have hall := mapM_eq_some.mp h
  clear h
  induction hall with
  | nil => simp
  | cons hn _ ih =>
    intro x hx
    rcases List.mem_cons.mp hx with rfl | hx
    · simp [hn]
    · exact ih x hx

theorem versionOf_eq_some {ns : List Nat} {v : Semver} (h : versionOf ns = some v) :
    ns.length = 3 ∨ ns.length = 4 := by
  unfold versionOf at h
  split at h
  · exact .inl rfl
  · exact .inr rfl
  · cases h

theorem exists_versionOf {ns : List Nat} (h : ns.length = 3 ∨ ns.length = 4) :
    ∃ v, versionOf ns = some v := by
  rcases ns with _ | ⟨a, _ | ⟨b, _ | ⟨c, _ | ⟨d, _ | ⟨e, ns⟩⟩⟩⟩⟩
  · simp at h
  · simp at h
  · simp at h
  · exact ⟨_, rfl⟩
  · exact ⟨_, rfl⟩
  · simp at h

theorem parseSemver_eq (s : Bytes) :
    parseSemver s = ((components s).mapM stoul).bind versionOf := by
  unfold parseSemver components Lines.parts DOT
  rcases Lines.split 46 s with ⟨ls, r⟩
  rcases ls with _ | ⟨a, _ | ⟨b, _ | ⟨c, _ | ⟨d, ls⟩⟩⟩⟩
  · cases hr : stoul r <;> simp [versionOf, hr]
  · cases ha : stoul a <;> cases hr : stoul r <;> simp [versionOf, ha, hr]
  · cases ha : stoul a <;> cases hb : stoul b <;> cases hr : stoul r <;>
      simp [versionOf, ha, hb, hr]
  · cases ha : stoul a <;> cases hb : stoul b <;> cases hc : stoul c <;> cases hr : stoul r <;>
      simp [versionOf, ha, hb, hc, hr]
  · -- too many components, whether they are numbers or not
    symm
    rw [Option.bind_eq_none_iff]
    intro ns hns
    have hlen := (mapM_eq_some.mp hns).length_eq
    cases hv : versionOf ns with
    | none => rfl
    | some v =>
      have := versionOf_eq_some hv
      simp at hlen
      omega

private theorem mapM_plain {cs : List Bytes} (h : ∀ c ∈ cs, IsPlain c) :
    cs.mapM stoul = some (cs.map digitsValue) := by
  rw [mapM_eq_some, List.forall₂_map_right_iff, List.forall₂_same]
  exact fun c hc => stoul_plain (h c hc)

/-- What is a version is read as that version. -/
theorem parseSemver_of_isVersion {s : Bytes} {v : Semver} (h : IsVersion s v) :
    parseSemver s = some v := by
  rw [parseSemver_eq, mapM_plain h.1]
  exact h.2

/-- **Parsing.** Exactly the versions are read as such, unless three or four lenient
components are not all plain. -/
theorem exact_iff (s : Bytes) :
    Exact s ↔ ((components s).length = 3 ∨ (components s).length = 4 →
      (∀ c ∈ components s, Lenient c) → ∀ c ∈ components s, IsPlain c) := by
  constructor
  · intro h hlen hlenient
    obtain ⟨ns, hns⟩ := exists_mapM fun c hc => stoul_isSome_iff.mpr (hlenient c hc)
    obtain ⟨v, hv⟩ := exists_versionOf ((mapM_eq_some.mp hns).length_eq ▸ hlen)
    exact ((h v).mp (by rw [parseSemver_eq, hns]; exact hv)).1
  · intro h v
    constructor
    · intro hp
      rw [parseSemver_eq, Option.bind_eq_some_iff] at hp
      obtain ⟨ns, hns, hv⟩ := hp
      have hall := mapM_eq_some.mp hns
      have hplain := h (hall.length_eq ▸ versionOf_eq_some hv) fun c hc =>
        stoul_isSome_iff.mp (isSome_of_mapM hns c hc)
      rw [mapM_plain hplain] at hns
      exact ⟨hplain, Option.some.inj hns ▸ hv⟩
    · exact parseSemver_of_isVersion

/-! ## Versions of file names -/

/-- A nonempty text of digits. -/
def IsNumeral (c : Bytes) : Prop := c ≠ [] ∧ ∀ b ∈ c, isDigit b = true

/-- The loop, on the pieces of the rest; the first piece goes on from the character before. -/
private theorem versionLoop_iff {s l : Bytes} {ls : List Bytes} (h : components s = l :: ls)
    (dots : Nat) (lastWasDot : Bool) : versionLoop dots lastWasDot s = true ↔
      (l = [] → lastWasDot = false) ∧ (∀ c ∈ l :: ls, ∀ b ∈ c, isDigit b = true) ∧
        (∀ c ∈ ls, c ≠ []) ∧ 2 ≤ dots + ls.length ∧ dots + ls.length ≤ 3 := by
  induction s generalizing l ls dots lastWasDot with
  | nil =>
    simp only [components, Lines.parts_nil, List.cons.injEq] at h
    obtain ⟨rfl, rfl⟩ := h
    simp [versionLoop, and_assoc]
  | cons c s ih =>
    by_cases hc : c = DOT
    · subst hc
      obtain ⟨m, ms, hs⟩ := List.exists_cons_of_ne_nil (Lines.parts_ne_nil DOT s)
      rw [components, Lines.parts_sep, hs] at h
      obtain ⟨rfl, rfl⟩ := List.cons.inj h
      cases lastWasDot with
      | true => simp [versionLoop]
      | false =>
        rw [versionLoop, if_pos rfl, if_neg (by decide), ih hs]
        simp only [List.length_cons, List.mem_cons, forall_eq_or_imp]
        constructor
        · rintro ⟨h₁, h₂, h₃, h₄, h₅⟩
          exact ⟨by simp, ⟨by simp, h₂⟩, ⟨fun e => absurd (h₁ e) (by decide), h₃⟩, by omega,
            by omega⟩
        · rintro ⟨-, ⟨-, h₂⟩, ⟨h₁, h₃⟩, h₄, h₅⟩
          exact ⟨fun e => absurd e h₁, h₂, h₃, by omega, by omega⟩
    · obtain ⟨m, ms, hs⟩ := List.exists_cons_of_ne_nil (Lines.parts_ne_nil DOT s)
      rw [components, Lines.parts_cons hc hs] at h
      obtain ⟨rfl, rfl⟩ := List.cons.inj h
      rw [versionLoop, if_neg hc]
      cases hd : isDigit c with
      | false => simp [hd]
      | true =>
        rw [Bool.not_true, if_neg (by decide), ih hs]
        simp [hd]

/-- The grammar of versions in file names: three or four numerals. -/
theorem isFileVersion_iff (s : Bytes) : isFileVersion s = true ↔
    ((components s).length = 3 ∨ (components s).length = 4) ∧ ∀ c ∈ components s, IsNumeral c := by
  obtain ⟨l, ls, h⟩ := List.exists_cons_of_ne_nil (Lines.parts_ne_nil DOT s)
  rw [isFileVersion, versionLoop_iff h, components, h]
  simp only [List.length_cons, List.mem_cons, forall_eq_or_imp, IsNumeral]
  constructor
  · rintro ⟨h₁, ⟨h₂, h₂'⟩, h₃, h₄, h₅⟩
    exact ⟨by omega, ⟨fun e => absurd (h₁ e) (by decide), h₂⟩, fun c hc => ⟨h₃ c hc, h₂' c hc⟩⟩
  · rintro ⟨hlen, ⟨h₁, h₂⟩, h₃⟩
    exact ⟨fun e => absurd e h₁, ⟨h₂, fun c hc => (h₃ c hc).2⟩, fun c hc => (h₃ c hc).1, by omega,
      by omega⟩

/-! ## The comparison of the dashboard -/

/-- One component is read into its place, unless it overflows on the way. -/
private theorem parseInts_digits {part : Nat} {r : List Nat} {c s : Bytes} (hp : part < r.length)
    (hc : ∀ b ∈ c, isDigit b = true) (h0 : r.getD part 0 ≤ INT_MAX) :
    parseInts part r (c ++ s) =
      (let n := c.foldl (fun n b => 10 * n + (b.toNat - 48)) (r.getD part 0)
       if INT_MAX < n then none else parseInts part (r.set part n) s) := by
  induction c generalizing r with
  | nil =>
    have hset : r.set part (r.getD part 0) = r := by simp [List.getElem?_eq_getElem hp]
    simp only [List.nil_append, List.foldl_nil, hset]
    rw [if_neg (Nat.not_lt.mpr h0)]
  | cons b c ih =>
    have hb : isDigit b = true := hc b (by simp)
    have hdot : b ≠ DOT := by
      rintro rfl
      exact absurd hb (by decide)
    have hget : (r.set part (r.getD part 0 * 10 + (b.toNat - 48))).getD part 0 =
        r.getD part 0 * 10 + (b.toNat - 48) := by simp [hp]
    rw [List.cons_append, parseInts, if_neg (by simp [hdot]), if_pos hb, List.foldl_cons,
      Nat.mul_comm 10]
    have hgrow (n : Nat) : n ≤ c.foldl (fun n b => 10 * n + (b.toNat - 48)) n :=
      @Signed.le_foldl_shift UInt8 10 (fun b => b.toNat - 48) (by decide) c n
    have hge := hgrow (r.getD part 0 * 10 + (b.toNat - 48))
    by_cases hlt : INT_MAX < r.getD part 0 * 10 + (b.toNat - 48)
    · simp only [hlt, ↓reduceIte]
      rw [if_pos (by omega)]
    · simp only [hlt, ↓reduceIte]
      rw [ih (by simpa using hp) (fun d hd => hc d (by simp [hd])) (by omega), hget]
      simp

private theorem parseInts_component {part : Nat} {r : List Nat} {c : Bytes} (hp : part < r.length)
    (hc : ∀ b ∈ c, isDigit b = true) (h0 : r.getD part 0 = 0) (s : Bytes) :
    parseInts part r (c ++ s) =
      if INT_MAX < digitsValue c then none else parseInts part (r.set part (digitsValue c)) s := by
  rw [parseInts_digits hp hc (by omega), h0]
  rfl

private theorem parseInts_dot {part : Nat} (h : part < 3) (r : List Nat) (s : Bytes) :
    parseInts part r (DOT :: s) = parseInts (part + 1) r s := by
  rw [parseInts, if_pos (by simpa using h)]

/-- The components, filled up to four. -/
def fourOf (v : Semver) : List Nat := [v.major, v.minor, v.patch, v.revision]

private theorem parseInts_three {a b c : Bytes} (ha : ∀ x ∈ a, isDigit x = true)
    (hb : ∀ x ∈ b, isDigit x = true) (hc : ∀ x ∈ c, isDigit x = true) (s : Bytes) :
    parseInts 0 [0, 0, 0, 0] (a ++ DOT :: (b ++ DOT :: (c ++ s))) =
      if digitsValue a ≤ INT_MAX ∧ digitsValue b ≤ INT_MAX ∧ digitsValue c ≤ INT_MAX then
        parseInts 2 [digitsValue a, digitsValue b, digitsValue c, 0] s
      else none := by
  rw [parseInts_component (by decide) ha rfl]
  by_cases h₁ : digitsValue a ≤ INT_MAX
  · rw [if_neg (by omega), parseInts_dot (by decide), parseInts_component (by simp) hb rfl]
    by_cases h₂ : digitsValue b ≤ INT_MAX
    · rw [if_neg (by omega), parseInts_dot (by decide), parseInts_component (by simp) hc rfl]
      by_cases h₃ : digitsValue c ≤ INT_MAX
      · rw [if_neg (by omega), if_pos ⟨h₁, h₂, h₃⟩]
        rfl
      · rw [if_pos (by omega), if_neg (by simp [h₃])]
    · rw [if_pos (by omega), if_neg (by simp [h₂])]
  · rw [if_pos (by omega), if_neg (by simp [h₁])]

/-- A version of the grammar is read as its values, or an `int` overflows. -/
theorem parseInts_eq {s : Bytes} (h : isFileVersion s = true) :
    ∃ v, versionOf ((components s).map digitsValue) = some v ∧
      (FitsInt s → parseInts 0 [0, 0, 0, 0] s = some (fourOf v)) ∧
      (¬FitsInt s → parseInts 0 [0, 0, 0, 0] s = none) := by
  obtain ⟨hlen, hnum⟩ := (isFileVersion_iff s).mp h
  unfold FitsInt
  rcases hcs : components s with _ | ⟨a, _ | ⟨b, _ | ⟨c, _ | ⟨d, _ | ⟨e, cs⟩⟩⟩⟩⟩
  · simp [hcs] at hlen
  · simp [hcs] at hlen
  · simp [hcs] at hlen
  · rw [hcs] at hnum
    have hs : s = a ++ DOT :: (b ++ DOT :: (c ++ [])) := by
      simpa using Lines.eq_join_of_parts [a, b] hcs
    have heq := parseInts_three (hnum a (by simp)).2 (hnum b (by simp)).2 (hnum c (by simp)).2 []
    rw [← hs] at heq
    refine ⟨⟨digitsValue a, digitsValue b, digitsValue c, 0⟩, rfl, ?_, ?_⟩
    · intro hf
      rw [heq, if_pos (by simpa using hf)]
      rfl
    · intro hf
      rw [heq, if_neg (by simpa using hf)]
  · rw [hcs] at hnum
    have hs : s = a ++ DOT :: (b ++ DOT :: (c ++ DOT :: (d ++ []))) := by
      simpa using Lines.eq_join_of_parts [a, b, c] hcs
    have heq := parseInts_three (hnum a (by simp)).2 (hnum b (by simp)).2 (hnum c (by simp)).2
      (DOT :: (d ++ []))
    rw [← hs, parseInts_dot (by decide), parseInts_component (by simp) (hnum d (by simp)).2 rfl]
      at heq
    refine ⟨⟨digitsValue a, digitsValue b, digitsValue c, digitsValue d⟩, rfl, ?_, ?_⟩
    · intro hf
      simp only [List.mem_cons, List.not_mem_nil, or_false, forall_eq_or_imp, forall_eq] at hf
      rw [heq, if_pos ⟨hf.1, hf.2.1, hf.2.2.1⟩, if_neg (by omega)]
      rfl
    · intro hf
      simp only [List.mem_cons, List.not_mem_nil, or_false, forall_eq_or_imp, forall_eq] at hf
      rw [heq]
      split
      · rw [if_pos (by omega)]
      · rfl
  · simp [hcs] at hlen

private theorem cmpInts_eq (v w : Semver) :
    (cmpInts (fourOf v) (fourOf w) = 1 ↔ v.gt w = true) ∧
      (cmpInts (fourOf v) (fourOf w) = -1 ↔ w.gt v = true) ∧
      (cmpInts (fourOf v) (fourOf w) = 0 ↔ v = w) := by
  obtain ⟨a, b, c, d⟩ := v
  obtain ⟨a', b', c', d'⟩ := w
  simp only [fourOf, cmpInts, Semver.gt, Semver.mk.injEq]
  split_ifs <;> simp <;> omega

/-- On versions that fit, the dashboard compares the values. -/
theorem semverCmp_eq {a b : Bytes} (ha : isFileVersion a = true) (hb : isFileVersion b = true)
    (fa : FitsInt a) (fb : FitsInt b) : ∃ v w, parseSemver a = some v ∧ parseSemver b = some w ∧
      IsVersion a v ∧ IsVersion b w ∧ semverCmp a b = some (cmpInts (fourOf v) (fourOf w)) := by
  have version : ∀ {s : Bytes}, isFileVersion s = true → FitsInt s → ∃ v, IsVersion s v ∧
      parseInts 0 [0, 0, 0, 0] s = some (fourOf v) := by
    intro s hs hf
    obtain ⟨v, hv, hp, -⟩ := parseInts_eq hs
    refine ⟨v, ⟨?_, hv⟩, hp hf⟩
    intro c hc
    have hnum := ((isFileVersion_iff s).mp hs).2 c hc
    exact ⟨hnum.1, hnum.2, (hf c hc).trans_lt (by decide)⟩
  obtain ⟨v, hv, pv⟩ := version ha fa
  obtain ⟨w, hw, pw⟩ := version hb fb
  exact ⟨v, w, parseSemver_of_isVersion hv, parseSemver_of_isVersion hw, hv, hw, by
    simp [semverCmp, pv, pw]⟩

theorem fitsInt_of_semverCmp {a b : Bytes} {r : Int} (ha : isFileVersion a = true)
    (hb : isFileVersion b = true) (h : semverCmp a b = some r) : FitsInt a ∧ FitsInt b := by
  simp only [semverCmp, Option.bind_eq_bind, Option.bind_eq_some_iff] at h
  obtain ⟨pa, hpa, pb, hpb, -⟩ := h
  obtain ⟨-, -, -, na⟩ := parseInts_eq ha
  obtain ⟨-, -, -, nb⟩ := parseInts_eq hb
  refine ⟨?_, ?_⟩ <;> by_contra hf
  · rw [na hf] at hpa
    cases hpa
  · rw [nb hf] at hpb
    cases hpb

/-- **Comparing.** -/
theorem sameVerdict_iff {a b : Bytes} (ha : isFileVersion a = true) (hb : isFileVersion b = true) :
    SameVerdict a b ↔ FitsInt a ∧ FitsInt b := by
  constructor
  · rintro ⟨r, hr, -⟩
    exact fitsInt_of_semverCmp ha hb hr
  · rintro ⟨fa, fb⟩
    obtain ⟨v, w, hv, hw, -, -, hc⟩ := semverCmp_eq ha hb fa fb
    refine ⟨_, hc, ?_⟩
    rw [semverOf, semverOf, hv, hw]
    exact cmpInts_eq v w

/-- **Versions.** A text is parsed exactly unless three or four lenient components are not all
plain; two versions of file names get the same verdict exactly if their components fit. -/
theorem versions_agree_iff (s a b : Bytes) :
    (Exact s ↔ ((components s).length = 3 ∨ (components s).length = 4 →
      (∀ c ∈ components s, Lenient c) → ∀ c ∈ components s, IsPlain c)) ∧
    (isFileVersion a = true → isFileVersion b = true →
      (SameVerdict a b ↔ FitsInt a ∧ FitsInt b)) :=
  ⟨exact_iff s, sameVerdict_iff⟩

/-- A version with a sign is read as one, a component above 32 bits as another, and beyond 31
bits the two comparisons part: what is newer for `parseSemver` overflows in `semverCmp`. -/
theorem lenient_version :
    parseSemver (ascii "+1.2.3") = some ⟨1, 2, 3, 0⟩ ∧ ¬Exact (ascii "+1.2.3") ∧
    parseSemver (ascii "4294967297.0.0") = some ⟨1, 0, 0, 0⟩ ∧ ¬Exact (ascii "4294967297.0.0") ∧
    isFileVersion (ascii "2147483648.0.0") = true ∧ isFileVersion (ascii "1.0.0") = true ∧
    (semverOf (ascii "2147483648.0.0")).gt (semverOf (ascii "1.0.0")) = true ∧
    semverCmp (ascii "2147483648.0.0") (ascii "1.0.0") = none ∧
    ¬SameVerdict (ascii "2147483648.0.0") (ascii "1.0.0") := by
  have hsign : parseSemver (ascii "+1.2.3") = some ⟨1, 2, 3, 0⟩ := by decide +kernel
  have hlong : parseSemver (ascii "4294967297.0.0") = some ⟨1, 0, 0, 0⟩ := by decide +kernel
  have hcmp : semverCmp (ascii "2147483648.0.0") (ascii "1.0.0") = none := by decide +kernel
  refine ⟨hsign, ?_, hlong, ?_, by decide, by decide, by decide +kernel, hcmp, ?_⟩
  · intro h
    exact absurd ((((h _).mp hsign).1 (ascii "+1") (by decide)).2.1 43 (by decide)) (by decide)
  · intro h
    exact absurd (((h _).mp hlong).1 (ascii "4294967297") (by decide)).2.2 (by decide)
  · rintro ⟨r, hr, -⟩
    rw [hcmp] at hr
    cases hr

end TrafficMonitor.Artifacts
