import TrafficMonitor.Server.Cbor

/-!
# CBOR items

The grammar that `cbor::parse` reads: data items of definite length, with heads of any width.
`Item.val` is the value of an item, where a tagged item has the value of its content;
`Item.read` is what the parser gives for it, which keeps nothing of a tagged item.

Proved here:

* `encodes_unique`: the items that begin a text are determined by the text;
* `parse_iff`: the parser reads the items within its limits, as `Item.read`;
* `read_eq_val_iff`: this is the value exactly if the tagged items have no value to keep.
-/

namespace TrafficMonitor.Cbor

inductive Item
  | uint (n : Nat)
  /-- The number `-1 - n`. -/
  | nint (n : Nat)
  | bytes (b : Bytes)
  | text (s : Bytes)
  | array (items : List Item)
  | map (entries : List (Item × Item))
  | tag (n : Nat) (content : Item)
  | simple (n : Nat)
  | float (width bits : Nat)

namespace Item

def major : Item → Nat
  | uint _ => 0
  | nint _ => 1
  | bytes _ => 2
  | text _ => 3
  | array _ => 4
  | map _ => 5
  | tag _ _ => 6
  | simple _ => 7
  | float _ _ => 7

def argument : Item → Nat
  | uint n => n
  | nint n => n
  | bytes b => b.length
  | text s => s.length
  | array items => items.length
  | map entries => entries.length
  | tag n _ => n
  | simple n => n
  | float _ bits => bits

end Item

/-- Keys and values in turn. -/
def flat (entries : List (Item × Item)) : List Item := entries.flatMap fun e => [e.1, e.2]

/-- A head: the major type with a small argument, or with the width of the argument that follows. -/
inductive Head (major n : Nat) : Nat → Bytes → Prop
  | short : n ≤ 23 → Head major n 0 [UInt8.ofNat (32 * major + n)]
  | long {k : Nat} {s : Bytes} : k < 4 → s.length = 2 ^ k → beNat s = n →
      Head major n (2 ^ k) (UInt8.ofNat (32 * major + (24 + k)) :: s)

mutual

inductive Encodes : Item → Bytes → Prop
  | intro {item : Item} {w : Nat} {h s : Bytes} :
      Head item.major item.argument w h → Body item w s → Encodes item (h ++ s)

/-- What follows a head with the width. -/
inductive Body : Item → Nat → Bytes → Prop
  | uint {n w : Nat} : Body (.uint n) w []
  | nint {n w : Nat} : Body (.nint n) w []
  | bytes {b : Bytes} {w : Nat} : Body (.bytes b) w b
  | text {s : Bytes} {w : Nat} : Body (.text s) w s
  | array {items : List Item} {w : Nat} {s : Bytes} :
      EncodesAll items s → Body (.array items) w s
  | map {entries : List (Item × Item)} {w : Nat} {s : Bytes} :
      EncodesAll (flat entries) s → Body (.map entries) w s
  | tag {n w : Nat} {content : Item} {s : Bytes} : Encodes content s → Body (.tag n content) w s
  | simple {n w : Nat} : w ≤ 1 → Body (.simple n) w []
  | float {w bits : Nat} : 2 ≤ w → Body (.float w bits) w []

inductive EncodesAll : List Item → Bytes → Prop
  | nil : EncodesAll [] []
  | cons {item : Item} {items : List Item} {s t : Bytes} :
      Encodes item s → EncodesAll items t → EncodesAll (item :: items) (s ++ t)

end

/-- The limits of the parser, with the number of levels that may be entered. -/
def Within : Nat → Item → Prop
  | 0, _ => False
  | _ + 1, .bytes b => b.length ≤ 65536
  | _ + 1, .text s => s.length ≤ 65536
  | levels + 1, .array items => items.length ≤ 512 ∧ ∀ i ∈ items, Within levels i
  | levels + 1, .map entries => entries.length ≤ 64 ∧ ∀ i ∈ flat entries, Within levels i
  | levels + 1, .tag _ content => Within levels content
  | _ + 1, _ => True

/-! ## Values -/

section

variable (tagged : Val → Val)

mutual

/-- The value of an item, where `tagged` is what is kept of the content of a tagged item. -/
def Item.valWith : Item → Val
  | .uint n => .uint n
  | .nint n => .nint n
  | .bytes b => .bytes b
  | .text s => .text s
  | .array items => .array (valsWith items)
  | .map entries => .map (entryValsWith entries)
  | .tag _ content => tagged content.valWith
  | .simple _ => .other
  | .float _ _ => .other

def valsWith : List Item → List Val
  | [] => []
  | i :: items => i.valWith :: valsWith items

def entryValsWith : List (Item × Item) → List (Val × Val)
  | [] => []
  | (k, v) :: entries => (k.valWith, v.valWith) :: entryValsWith entries

end

end

/-- The value of an item. -/
def Item.val : Item → Val := Item.valWith id

/-- What the parser gives for an item: a tagged item is skipped. -/
def Item.read : Item → Val := Item.valWith fun _ => .other

/-- A simple or a floating-point value, with or without tags. -/
def Item.bare : Item → Bool
  | .simple _ => true
  | .float _ _ => true
  | .tag _ content => content.bare
  | _ => false

mutual

/-- Only simple and floating-point values are tagged. -/
def Item.plain : Item → Bool
  | .array items => plainAll items
  | .map entries => plainEntries entries
  | .tag _ content => content.bare
  | _ => true

def plainAll : List Item → Bool
  | [] => true
  | i :: items => i.plain && plainAll items

def plainEntries : List (Item × Item) → Bool
  | [] => true
  | (k, v) :: entries => k.plain && v.plain && plainEntries entries

end

theorem valsWith_eq (tagged : Val → Val) (items : List Item) :
    valsWith tagged items = items.map (Item.valWith tagged) := by
  induction items with
  | nil => rfl
  | cons i items ih => rw [valsWith, ih, List.map_cons]

theorem entryValsWith_eq (tagged : Val → Val) (entries : List (Item × Item)) :
    entryValsWith tagged entries = pairs ((flat entries).map (Item.valWith tagged)) := by
  induction entries with
  | nil => rfl
  | cons e entries ih =>
    obtain ⟨k, v⟩ := e
    rw [entryValsWith, ih]
    rfl

theorem bare_iff (item : Item) : Val.other = item.val ↔ item.bare = true := by
  induction item using Item.bare.induct with
  | case1 n => simp [Item.val, Item.valWith, Item.bare]
  | case2 w bits => simp [Item.val, Item.valWith, Item.bare]
  | case3 n content ih => simpa [Item.val, Item.valWith, Item.bare] using ih
  | case4 item h1 h2 h3 =>
    cases item with
    | simple n => exact absurd rfl (h1 n)
    | float w bits => exact absurd rfl (h2 w bits)
    | tag n content => exact absurd rfl (h3 n content)
    | uint n => simp [Item.val, Item.valWith, Item.bare]
    | nint n => simp [Item.val, Item.valWith, Item.bare]
    | bytes b => simp [Item.val, Item.valWith, Item.bare]
    | text s => simp [Item.val, Item.valWith, Item.bare]
    | array items => simp [Item.val, Item.valWith, Item.bare]
    | map entries => simp [Item.val, Item.valWith, Item.bare]

mutual

/-- **Tags.** -/
theorem read_eq_val_iff : ∀ item : Item, item.read = item.val ↔ item.plain = true
  | .uint n => by simp [Item.read, Item.val, Item.valWith, Item.plain]
  | .nint n => by simp [Item.read, Item.val, Item.valWith, Item.plain]
  | .bytes b => by simp [Item.read, Item.val, Item.valWith, Item.plain]
  | .text s => by simp [Item.read, Item.val, Item.valWith, Item.plain]
  | .simple n => by simp [Item.read, Item.val, Item.valWith, Item.plain]
  | .float w bits => by simp [Item.read, Item.val, Item.valWith, Item.plain]
  | .array items => by
    simpa [Item.read, Item.val, Item.valWith, Item.plain] using reads_eq_vals_iff items
  | .map entries => by
    simpa [Item.read, Item.val, Item.valWith, Item.plain] using entryReads_eq_vals_iff entries
  | .tag n content => bare_iff content

theorem reads_eq_vals_iff : ∀ items : List Item,
    valsWith (fun _ => .other) items = valsWith id items ↔ plainAll items = true
  | [] => by simp [valsWith, plainAll]
  | i :: items => by
    have hi := read_eq_val_iff i
    have his := reads_eq_vals_iff items
    rw [Item.read, Item.val] at hi
    simp [valsWith, plainAll, hi, his]

theorem entryReads_eq_vals_iff : ∀ entries : List (Item × Item),
    entryValsWith (fun _ => .other) entries = entryValsWith id entries ↔ plainEntries entries = true
  | [] => by simp [entryValsWith, plainEntries]
  | (k, v) :: entries => by
    have hk := read_eq_val_iff k
    have hv := read_eq_val_iff v
    have hes := entryReads_eq_vals_iff entries
    rw [Item.read, Item.val] at hk hv
    simp [entryValsWith, plainEntries, hk, hv, hes]

end

/-! ## Heads -/

theorem first_inj {m m' a a' : Nat} (hm : m < 8) (hm' : m' < 8) (ha : a < 32) (ha' : a' < 32)
    (h : UInt8.ofNat (32 * m + a) = UInt8.ofNat (32 * m' + a')) : m = m' ∧ a = a' := by
  have h := congrArg UInt8.toNat h
  rw [UInt8.toNat_ofNat', UInt8.toNat_ofNat'] at h
  omega

theorem first_eq (ib : UInt8) : UInt8.ofNat (32 * (ib.toNat / 32) + ib.toNat % 32) = ib := by
  rw [Nat.div_add_mod, UInt8.ofNat_toNat]

theorem Head.unique {m n w m' n' w' : Nat} {h h' t t' : Bytes} (hm : m < 8) (hm' : m' < 8)
    (hh : Head m n w h) (hh' : Head m' n' w' h') (e : h ++ t = h' ++ t') :
    m = m' ∧ n = n' ∧ w = w' ∧ h = h' ∧ t = t' := by
  cases hh with
  | short hn =>
    cases hh' with
    | short hn' =>
      obtain ⟨hb, rfl⟩ := List.cons.inj e
      obtain ⟨rfl, rfl⟩ := first_inj hm hm' (by omega) (by omega) hb
      exact ⟨rfl, rfl, rfl, rfl, rfl⟩
    | long hk' hs' hbe' =>
      have := first_inj hm hm' (by omega) (by omega) (List.cons.inj e).1
      omega
  | @long k s hk hs hbe =>
    cases hh' with
    | short hn' =>
      have := first_inj hm hm' (by omega) (by omega) (List.cons.inj e).1
      omega
    | @long k' s' hk' hs' hbe' =>
      obtain ⟨hb, htail⟩ := List.cons.inj e
      obtain ⟨rfl, hkk⟩ := first_inj hm hm' (by omega) (by omega) hb
      obtain rfl : k = k' := by omega
      obtain ⟨rfl, rfl⟩ := List.append_inj htail (hs.trans hs'.symm)
      exact ⟨rfl, hbe.symm.trans hbe', rfl, rfl, rfl⟩

theorem readNat_iff {k n : Nat} {data rest : Bytes} :
    readNat k data = some (n, rest) ↔ ∃ s, s.length = k ∧ beNat s = n ∧ data = s ++ rest := by
  constructor
  · intro h
    unfold readNat at h
    split at h
    · cases h
    · rename_i hlen
      cases h
      exact ⟨data.take k, List.length_take_of_le (Nat.not_lt.mp hlen), rfl,
        (List.take_append_drop k data).symm⟩
  · rintro ⟨s, rfl, rfl, rfl⟩
    rw [readNat, if_neg (by simp), List.take_left, List.drop_left]

theorem readAdditional_long {k : Nat} (hk : k < 4) (data : Bytes) :
    readAdditional (24 + k) data = readNat (2 ^ k) data := by
  match k, hk with
  | 0, _ => rfl
  | 1, _ => rfl
  | 2, _ => rfl
  | 3, _ => rfl

/-- The head that begins with a byte. -/
theorem readAdditional_iff {ib : UInt8} {n : Nat} {data rest : Bytes} :
    readAdditional (ib.toNat % 32) data = some (n, rest) ↔
      ∃ w h, Head (ib.toNat / 32) n w (ib :: h) ∧ data = h ++ rest := by
  have hmajor : ib.toNat / 32 < 8 := by
    have := ib.toNat_lt
    omega
  have hadd : ib.toNat % 32 < 32 := Nat.mod_lt _ (by decide)
  have hfirst := first_eq ib
  generalize ib.toNat / 32 = m at hmajor hfirst ⊢
  generalize ib.toNat % 32 = a at hadd hfirst ⊢
  subst hfirst
  constructor
  · intro h
    by_cases ha : a ≤ 23
    · rw [readAdditional, if_pos ha] at h
      cases h
      exact ⟨0, [], .short ha, rfl⟩
    by_cases hk : a - 24 < 4
    · obtain ⟨k, rfl⟩ : ∃ k, a = 24 + k := ⟨a - 24, by omega⟩
      rw [readAdditional_long (by omega), readNat_iff] at h
      obtain ⟨s, hs, hbe, rfl⟩ := h
      exact ⟨2 ^ k, s, .long (by omega) hs hbe, rfl⟩
    · rw [readAdditional, if_neg ha, if_neg (by omega), if_neg (by omega), if_neg (by omega),
        if_neg (by omega)] at h
      cases h
  · rintro ⟨w, h, hh, rfl⟩
    generalize hs : UInt8.ofNat (32 * m + a) :: h = s at hh
    cases hh with
    | short hn =>
      obtain ⟨hb, rfl⟩ := List.cons.inj hs
      obtain ⟨-, rfl⟩ := first_inj hmajor hmajor hadd (by omega) hb
      rw [readAdditional, if_pos hn]
      rfl
    | @long k s' hk hlen hbe =>
      obtain ⟨hb, rfl⟩ := List.cons.inj hs
      obtain ⟨-, rfl⟩ := first_inj hmajor hmajor hadd (by omega) hb
      rw [readAdditional_long hk, readNat_iff]
      exact ⟨h, hlen, hbe, rfl⟩

theorem Head.cons {m n w : Nat} {h : Bytes} (hh : Head m n w h) : ∃ ib s, h = ib :: s := by
  cases hh with
  | short hn => exact ⟨_, _, rfl⟩
  | long hk hs hbe => exact ⟨_, _, rfl⟩

theorem Head.major_eq {m n w : Nat} {ib : UInt8} {h : Bytes} (hm : m < 8)
    (hh : Head m n w (ib :: h)) : ib.toNat / 32 = m := by
  generalize hs : ib :: h = s at hh
  cases hh with
  | short hn =>
    obtain ⟨rfl, -⟩ := List.cons.inj hs
    rw [UInt8.toNat_ofNat']
    omega
  | long hk hlen hbe =>
    obtain ⟨rfl, -⟩ := List.cons.inj hs
    rw [UInt8.toNat_ofNat']
    omega

theorem Item.major_lt (item : Item) : item.major < 8 := by
  cases item <;> simp [Item.major]

/-! ## Uniqueness -/

theorem flat_inj {es es' : List (Item × Item)} (h : flat es = flat es') : es = es' := by
  induction es generalizing es' with
  | nil =>
    cases es' with
    | nil => rfl
    | cons e' es' => cases h
  | cons e es ih =>
    cases es' with
    | nil => cases h
    | cons e' es' =>
      obtain ⟨h1, h⟩ := List.cons.inj h
      obtain ⟨h2, h⟩ := List.cons.inj h
      rw [ih h, Prod.ext h1 h2]

theorem length_flat (es : List (Item × Item)) : (flat es).length = 2 * es.length := by
  induction es with
  | nil => rfl
  | cons e es ih =>
    rw [flat, List.flatMap_cons, List.length_append, ← flat, ih]
    simp only [List.length_cons, List.length_nil]
    omega

/-- The item and its text are determined by what begins with it. -/
def Determined (item : Item) : Prop :=
  ∀ {item' : Item} {s s' t t' : Bytes}, Encodes item s → Encodes item' s' → s ++ t = s' ++ t' →
    item = item' ∧ s = s' ∧ t = t'

theorem encodesAll_unique {items items' : List Item} {s s' t t' : Bytes}
    (hd : ∀ i ∈ items, Determined i) (h : EncodesAll items s) (h' : EncodesAll items' s')
    (hlen : items.length = items'.length) (e : s ++ t = s' ++ t') :
    items = items' ∧ s = s' ∧ t = t' := by
  induction items generalizing items' s s' with
  | nil =>
    cases h
    cases h' with
    | nil => exact ⟨rfl, rfl, e⟩
    | cons hi his => cases hlen
  | cons i items ih =>
    cases h with
    | cons hi his =>
      cases h' with
      | nil => cases hlen
      | cons hi' his' =>
        rw [List.append_assoc, List.append_assoc] at e
        obtain ⟨rfl, rfl, htail⟩ := hd i (by simp) hi hi' e
        obtain ⟨rfl, rfl, rfl⟩ :=
          ih (fun j hj => hd j (by simp [hj])) his his' (by simpa using hlen) htail
        exact ⟨rfl, rfl, rfl⟩

/-- **Uniqueness.** An item within the limits is the only one that its text encodes. -/
theorem encodes_unique {levels : Nat} {item : Item} (hw : Within levels item) :
    Determined item := by
  induction levels generalizing item with
  | zero => exact hw.elim
  | succ levels ih =>
    intro item' s s' t t' h h' e
    obtain ⟨hh, hb⟩ := h
    obtain ⟨hh', hb'⟩ := h'
    rw [List.append_assoc, List.append_assoc] at e
    obtain ⟨hm, hn, rfl, rfl, htail⟩ := hh.unique item.major_lt item'.major_lt hh' e
    clear hh hh' e
    cases hb with
    | uint =>
      cases hb' <;> cases hm
      cases hn
      exact ⟨rfl, rfl, htail⟩
    | nint =>
      cases hb' <;> cases hm
      cases hn
      exact ⟨rfl, rfl, htail⟩
    | bytes =>
      cases hb' <;> cases hm
      obtain ⟨rfl, rfl⟩ := List.append_inj htail hn
      exact ⟨rfl, rfl, rfl⟩
    | text =>
      cases hb' <;> cases hm
      obtain ⟨rfl, rfl⟩ := List.append_inj htail hn
      exact ⟨rfl, rfl, rfl⟩
    | array his =>
      cases hb' with
      | array his' =>
        obtain ⟨rfl, rfl, rfl⟩ :=
          encodesAll_unique (fun i hi => ih (hw.2 i hi)) his his' hn htail
        exact ⟨rfl, rfl, rfl⟩
      | _ => cases hm
    | map his =>
      cases hb' with
      | map his' =>
        have hlen := congrArg (2 * ·) hn
        rw [Item.argument, Item.argument, ← length_flat, ← length_flat] at hlen
        obtain ⟨hflat, rfl, rfl⟩ :=
          encodesAll_unique (fun i hi => ih (hw.2 i hi)) his his' hlen htail
        rw [flat_inj hflat]
        exact ⟨rfl, rfl, rfl⟩
      | _ => cases hm
    | tag hi =>
      cases hb' with
      | tag hi' =>
        cases hn
        obtain ⟨rfl, rfl, rfl⟩ := ih hw hi hi' htail
        exact ⟨rfl, rfl, rfl⟩
      | _ => cases hm
    | simple hwidth =>
      cases hb' with
      | simple hwidth' =>
        cases hn
        exact ⟨rfl, rfl, htail⟩
      | float hwidth' => omega
      | _ => cases hm
    | float hwidth =>
      cases hb' with
      | float hwidth' =>
        cases hn
        exact ⟨rfl, rfl, htail⟩
      | simple hwidth' => omega
      | _ => cases hm

/-! ## Reading -/

theorem readItems_iff {p : Bytes → Option (Val × Bytes)} {n : Nat} {data rest : Bytes}
    {vs : List Val} {P : Item → Prop}
    (hp : ∀ {data rest v}, p data = some (v, rest) ↔
      ∃ item s, data = s ++ rest ∧ Encodes item s ∧ P item ∧ v = item.read) :
    readItems p n data = some (vs, rest) ↔
      ∃ items s, data = s ++ rest ∧ EncodesAll items s ∧ items.length = n ∧ (∀ i ∈ items, P i) ∧
        vs = items.map Item.read := by
  induction n generalizing data vs with
  | zero =>
    rw [readItems]
    constructor
    · intro h
      cases h
      exact ⟨[], [], rfl, .nil, rfl, by simp, rfl⟩
    · rintro ⟨items, s, rfl, hs, hlen, -, rfl⟩
      obtain rfl := List.length_eq_zero_iff.mp hlen
      cases hs
      rfl
  | succ n ih =>
    constructor
    · intro h
      rw [readItems] at h
      split at h
      · cases h
      · rename_i v data' hv
        obtain ⟨q, hq, he⟩ := Option.map_eq_some_iff.mp h
        cases he
        obtain ⟨item, s, rfl, hs, hi, rfl⟩ := hp.mp hv
        obtain ⟨items, t, rfl, ht, hlen, his, hvs⟩ := ih.mp hq
        refine ⟨item :: items, s ++ t, (List.append_assoc s t _).symm, .cons hs ht,
          congrArg (· + 1) hlen, ?_, by rw [hvs, List.map_cons]⟩
        simpa using ⟨hi, his⟩
    · rintro ⟨items, s, rfl, hs, hlen, his, rfl⟩
      cases hs with
      | nil => cases hlen
      | @cons item items s t hs ht =>
        have hhead := hp.mpr ⟨item, s, List.append_assoc s t rest, hs, his item (by simp), rfl⟩
        have htail := ih.mpr ⟨items, t, rfl, ht, Nat.succ.inj hlen,
          fun i hi => his i (by simp [hi]), rfl⟩
        rw [readItems, hhead]
        dsimp only
        rw [htail]
        rfl

theorem exists_flat {n : Nat} {items : List Item} (h : items.length = 2 * n) :
    ∃ entries, flat entries = items ∧ entries.length = n := by
  induction n generalizing items with
  | zero => exact ⟨[], (List.length_eq_zero_iff.mp h).symm, rfl⟩
  | succ n ih =>
    match items, h with
    | k :: v :: items, h =>
      obtain ⟨entries, rfl, rfl⟩ := ih (by simpa [Nat.mul_succ] using h)
      exact ⟨(k, v) :: entries, rfl, rfl⟩

/-- A string of `count` bytes. -/
theorem take_iff {mk : Bytes → Val} {count : Nat} {data rest : Bytes} {v : Val} :
    (if count > 65536 ∨ data.length < count then none
        else some (mk (data.take count), data.drop count)) = some (v, rest) ↔
      ∃ b, b.length = count ∧ b.length ≤ 65536 ∧ data = b ++ rest ∧ v = mk b := by
  constructor
  · intro h
    split at h
    · cases h
    · rename_i hc
      obtain ⟨hlimit, hlen⟩ := not_or.mp hc
      cases h
      refine ⟨data.take count, List.length_take_of_le (Nat.not_lt.mp hlen), ?_,
        (List.take_append_drop count data).symm, rfl⟩
      rw [List.length_take_of_le (Nat.not_lt.mp hlen)]
      exact Nat.not_lt.mp hlimit
  · rintro ⟨b, rfl, hlimit, rfl, rfl⟩
    rw [if_neg (by simp; omega), List.take_left, List.drop_left]

theorem head_of_parse {m n w : Nat} {ib : UInt8} {h : Bytes} (hm : m < 8)
    (hh : Head m n w (ib :: h)) (data : Bytes) :
    readAdditional (ib.toNat % 32) (h ++ data) = some (n, data) ∧ ib.toNat / 32 = m := by
  have hmajor := hh.major_eq hm
  exact ⟨readAdditional_iff.mpr ⟨w, h, hmajor ▸ hh, rfl⟩, hmajor⟩

/-- **Reading.** The parser reads the items within its limits. -/
theorem parse_iff {levels : Nat} {data rest : Bytes} {v : Val} :
    parse levels data = some (v, rest) ↔
      ∃ item s, data = s ++ rest ∧ Encodes item s ∧ Within levels item ∧ v = item.read := by
  induction levels generalizing data rest v with
  | zero => exact iff_of_false (by simp [parse]) fun ⟨_, _, _, _, hw, _⟩ => hw
  | succ levels ih =>
    constructor
    · intro h
      cases data with
      | nil => cases h
      | cons ib data =>
        unfold parse at h
        split at h
        · cases h
        rename_i count data' hadd
        obtain ⟨w, hd, hh, rfl⟩ := readAdditional_iff.mp hadd
        have hmk {item : Item} {s : Bytes} (hm : ib.toNat / 32 = item.major)
            (hn : count = item.argument) (hb : Body item w s) :
            Encodes item (ib :: hd ++ s) := by
          subst hn
          rw [hm] at hh
          exact .intro hh hb
        split at h
        · rename_i hm
          cases h
          exact ⟨.uint count, _, by simp, hmk hm rfl .uint, trivial, rfl⟩
        · rename_i hm
          cases h
          exact ⟨.nint count, _, by simp, hmk hm rfl .nint, trivial, rfl⟩
        · rename_i hm
          obtain ⟨b, hlen, hlimit, rfl, rfl⟩ := take_iff.mp h
          exact ⟨.bytes b, _, by simp, hmk hm hlen.symm .bytes, hlimit, rfl⟩
        · rename_i hm
          obtain ⟨s, hlen, hlimit, rfl, rfl⟩ := take_iff.mp h
          exact ⟨.text s, _, by simp, hmk hm hlen.symm .text, hlimit, rfl⟩
        · rename_i hm
          split at h
          · cases h
          rename_i hcount
          obtain ⟨q, hq, he⟩ := Option.map_eq_some_iff.mp h
          cases he
          obtain ⟨items, s, rfl, hs, rfl, his, hvs⟩ := (readItems_iff ih).mp hq
          refine ⟨.array items, _, by simp, hmk hm rfl (.array hs), ⟨Nat.not_lt.mp hcount, his⟩, ?_⟩
          rw [hvs, Item.read, Item.valWith, valsWith_eq]
        · rename_i hm
          split at h
          · cases h
          rename_i hcount
          obtain ⟨q, hq, he⟩ := Option.map_eq_some_iff.mp h
          cases he
          obtain ⟨items, s, rfl, hs, hlen, his, hvs⟩ := (readItems_iff ih).mp hq
          obtain ⟨entries, rfl, rfl⟩ := exists_flat hlen
          refine ⟨.map entries, _, by simp, hmk hm rfl (.map hs), ⟨Nat.not_lt.mp hcount, his⟩, ?_⟩
          rw [hvs, Item.read, Item.valWith, entryValsWith_eq]
        · rename_i hm
          obtain ⟨q, hq, he⟩ := Option.map_eq_some_iff.mp h
          cases he
          obtain ⟨content, s, rfl, hs, hw, -⟩ := ih.mp hq
          exact ⟨.tag count content, _, by simp, hmk hm rfl (.tag hs), hw, rfl⟩
        · rename_i h0 h1 h2 h3 h4 h5 h6
          cases h
          simp only [imp_false] at h0 h1 h2 h3 h4 h5 h6
          have hlt := ib.toNat_lt
          have hm : ib.toNat / 32 = 7 := by omega
          by_cases hwidth : w ≤ 1
          · exact ⟨.simple count, _, by simp, hmk hm rfl (.simple hwidth), trivial, rfl⟩
          · exact ⟨.float w count, _, by simp, hmk hm rfl (.float (by omega)), trivial, rfl⟩
    · rintro ⟨item, s, rfl, ⟨hh, hb⟩, hw, rfl⟩
      obtain ⟨ib, hd, rfl⟩ := hh.cons
      rename_i s
      generalize hn : item.argument = count at hh
      obtain ⟨hadd, hm⟩ := head_of_parse item.major_lt hh (s ++ rest)
      rw [List.append_assoc, List.cons_append, parse, hadd]
      dsimp only
      rw [hm]
      cases hb with
      | uint => exact congrArg (fun n => some (Val.uint n, rest)) hn.symm
      | nint => exact congrArg (fun n => some (Val.nint n, rest)) hn.symm
      | bytes => exact take_iff.mpr ⟨_, hn, hw, rfl, rfl⟩
      | text => exact take_iff.mpr ⟨_, hn, hw, rfl, rfl⟩
      | @array items w s hs =>
        have hn : items.length = count := hn
        have hread := (readItems_iff ih).mpr ⟨items, s, (rfl : s ++ rest = _), hs, hn, hw.2, rfl⟩
        simp only [Item.major]
        rw [if_neg (Nat.not_lt.mpr (hn ▸ hw.1)), hread, Item.read, Item.valWith, valsWith_eq]
        rfl
      | @map entries w s hs =>
        have hn : entries.length = count := hn
        have hread := (readItems_iff ih).mpr
          ⟨flat entries, s, (rfl : s ++ rest = _), hs, hn ▸ length_flat _, hw.2, rfl⟩
        simp only [Item.major]
        rw [if_neg (Nat.not_lt.mpr (hn ▸ hw.1)), hread, Item.read, Item.valWith, entryValsWith_eq]
        rfl
      | tag hs =>
        have hread := ih.mpr ⟨_, s, (rfl : s ++ rest = _), hs, hw, rfl⟩
        simp only [Item.major]
        rw [hread]
        rfl
      | simple hwidth => rfl
      | float hwidth => rfl

/-- What is read, and the only item that the consumed text encodes. -/
theorem exists_item_of_parse {levels : Nat} {data rest : Bytes} {v : Val}
    (h : parse levels data = some (v, rest)) :
    ∃ item s, data = s ++ rest ∧ Encodes item s ∧ Within levels item ∧
      (∀ item', Encodes item' s → item' = item) ∧ (v = item.val ↔ item.plain = true) := by
  obtain ⟨item, s, rfl, hs, hw, rfl⟩ := parse_iff.mp h
  exact ⟨item, s, rfl, hs, hw, fun item' h' => (encodes_unique hw hs h' (rfl : s ++ [] = s ++ [])).1.symm,
    read_eq_val_iff item⟩

end TrafficMonitor.Cbor
