import TrafficMonitor.Client.Control
import TrafficMonitor.Server.CtrlChannel

/-!
# Which line ends a reply

The lines that answer a list or get request, and what the server's router makes of them.
A reply ends with its `end` line, or with an `err` line; the router instead looks for the
text `" end"` anywhere behind the first blank.

Proved here, for every file name, base64 text and interleaving with other lines:

* `isEnd_text`: the router takes a line for the last one exactly when it is terminal or
  when a part of its name or data begins with `end`;
* `routesExactly_iff`: a request is done exactly when its terminal line has been routed,
  if and only if no line before the terminal one has such a part.
-/

namespace TrafficMonitor.CtrlChannel

open Bytes Control

/-! ## Reply lines -/

/-- The lines of the protocol that answer a list or get request. -/
inductive ReplyLine
  | listBegin (count : Nat)
  | listFile (name : Bytes) (size : Nat) (mtime : Bytes)
  | listEnd
  | getBegin (name : Bytes) (total : Nat) (sha256 : Bytes)
  | getChunk (data : Bytes)
  | getEnd
  | err (code message : Bytes)
  deriving DecidableEq, Repr

namespace ReplyLine

def family : ReplyLine → Bytes
  | listBegin _ | listFile .. | listEnd => ascii "list"
  | getBegin .. | getChunk _ | getEnd => ascii "get"
  | err .. => ascii "err"

/-- The fields after the request id. -/
def fields : ReplyLine → List Bytes
  | listBegin count => [ascii "begin", decimal count]
  | listFile name size mtime => [ascii "file", name, decimal size, mtime]
  | listEnd | getEnd => [ascii "end"]
  | getBegin name total sha256 => [ascii "begin", name, decimal total, sha256]
  | getChunk data => [ascii "chunk", data]
  | err code message => [code, message]

/-- The body of the line, after `"L "`. -/
def text (reqId : Bytes) (r : ReplyLine) : Bytes := r.family ++ spaced (reqId :: r.fields)

/-- The token after the request id is `end`, or the line is an `err` line. -/
def terminal : ReplyLine → Bool
  | listEnd | getEnd | err .. => true
  | _ => false

/-- The names and data that a line carries. -/
def data : ReplyLine → List Bytes
  | listFile name _ mtime => [name, mtime]
  | getBegin name _ sha256 => [name, sha256]
  | getChunk data => [data]
  | _ => []

/-- A part of a name or of data, up to the next blank, begins with `end`. -/
def beginsEnd (r : ReplyLine) : Bool := r.data.any fun f => hasSub (ascii " end") (SP :: f)

end ReplyLine

/-- At every point of a connection, whatever the other lines are, the request's entry holds its
own lines in order, and it is done when its terminal line has been routed. -/
def RoutesExactly (reqId : Bytes) (rs : List ReplyLine) : Prop :=
  ∀ (ch : ClientCtrlChannel) (conn : List Bytes) (routed : List ReplyLine), routed <+: rs →
    bodiesFor reqId conn = routed.map (·.text reqId) →
    ∃ resp, (conn.foldl ClientCtrlChannel.routeLine (ch.registerPending reqId)).pending reqId =
        some resp ∧
      resp.lines = routed.map (·.text reqId) ∧
      (resp.done = true ↔ ∃ r ∈ routed, r.terminal = true)

/-- No line before the terminal one has a part that begins with `end`. -/
def EndOnlyAtEnd : List ReplyLine → Prop
  | [] => True
  | r :: rs => r.terminal = true ∨ (r.beginsEnd = false ∧ EndOnlyAtEnd rs)

instance decidableEndOnlyAtEnd : ∀ rs, Decidable (EndOnlyAtEnd rs)
  | [] => isTrue trivial
  | r :: rs =>
    have := decidableEndOnlyAtEnd rs
    inferInstanceAs (Decidable (r.terminal = true ∨ (r.beginsEnd = false ∧ EndOnlyAtEnd rs)))

/-! ## Where the router finds `" end"` -/

theorem family_cases (r : ReplyLine) :
    r.family = ascii "list" ∨ r.family = ascii "get" ∨ r.family = ascii "err" := by
  cases r <;> simp [ReplyLine.family]

theorem family_not_mem (r : ReplyLine) : SP ∉ r.family := by
  rcases family_cases r with h | h | h <;> rw [h] <;> decide

theorem text_eq (reqId : Bytes) (r : ReplyLine) :
    ∃ f fs, r.fields = f :: fs ∧
      r.text reqId = r.family ++ SP :: (reqId ++ SP :: (f ++ spaced fs)) := by
  cases r <;> exact ⟨_, _, rfl, by simp [ReplyLine.text, ReplyLine.fields, spaced]⟩

/-- A decimal number has no part that begins with `end`. -/
theorem decimal_not_end (n : Nat) : hasSub (ascii " end") (SP :: decimal n) = false := by
  have e : ascii " end" = SP :: ascii "end" := rfl
  rw [e, hasSub_word (not_mem_decimal (by decide) n), Bool.eq_false_iff]
  intro h
  have hp := List.isPrefixOf_iff_prefix.mp h
  exact absurd (isDigit_of_mem_decimal (hp.subset (by decide : 110 ∈ ascii "end"))) (by decide)

/-- **Where a reply ends for the router.** -/
theorem isEnd_text {reqId : Bytes} (hr : SP ∉ reqId) (hend : ¬ascii "end" <+: reqId)
    (r : ReplyLine) : isEnd (r.text reqId) = (r.terminal || r.beginsEnd) := by
  have e : ascii " end" = SP :: ascii "end" := rfl
  have hid : hasSub (ascii " end") (SP :: reqId) = false := by
    rw [e, hasSub_word hr, Bool.eq_false_iff]
    exact fun h => hend (List.isPrefixOf_iff_prefix.mp h)
  obtain ⟨f, fs, -, htext⟩ := text_eq reqId r
  have hsub : subtype (r.text reqId) = r.family := by
    rw [htext, subtype_append _ (family_not_mem r)]
  have hblank : fromBlank (r.text reqId) = spaced (reqId :: r.fields) := by
    have e : spaced (reqId :: r.fields) = SP :: (reqId ++ spaced r.fields) := by simp [spaced]
    rw [ReplyLine.text, e, fromBlank_append _ (family_not_mem r)]
  have hfind : hasSub (ascii " end") (spaced (reqId :: r.fields)) =
      r.fields.any fun t => hasSub (ascii " end") (SP :: t) := by
    rw [e, hasSub_spaced (by decide), List.any_cons, ← e, hid, Bool.false_or]
  have hbegin : hasSub (ascii " end") (SP :: ascii "begin") = false := by decide
  have hfile : hasSub (ascii " end") (SP :: ascii "file") = false := by decide
  have hchunk : hasSub (ascii " end") (SP :: ascii "chunk") = false := by decide
  have hword : hasSub (ascii " end") (SP :: ascii "end") = true := by decide
  have hlist : ascii "list" ≠ ascii "del" ∧ ascii "list" ≠ ascii "del_all" ∧
      ascii "list" ≠ ascii "err" := by decide
  have hget : ascii "get" ≠ ascii "list" ∧ ascii "get" ≠ ascii "del" ∧
      ascii "get" ≠ ascii "del_all" ∧ ascii "get" ≠ ascii "err" := by decide
  rw [isEnd, isError, hsub, hblank, hfind]
  cases r with
  | listBegin count =>
    simp [ReplyLine.family, ReplyLine.fields, ReplyLine.terminal, ReplyLine.beginsEnd,
      ReplyLine.data, hbegin, decimal_not_end, hlist]
  | listFile name size mtime =>
    simp [ReplyLine.family, ReplyLine.fields, ReplyLine.terminal, ReplyLine.beginsEnd,
      ReplyLine.data, hfile, decimal_not_end, hlist]
  | listEnd => simp [ReplyLine.family, ReplyLine.fields, ReplyLine.terminal, hword]
  | getBegin name total sha256 =>
    simp [ReplyLine.family, ReplyLine.fields, ReplyLine.terminal, ReplyLine.beginsEnd,
      ReplyLine.data, hbegin, decimal_not_end, hget]
  | getChunk data =>
    simp [ReplyLine.family, ReplyLine.fields, ReplyLine.terminal, ReplyLine.beginsEnd,
      ReplyLine.data, hchunk, hget]
  | getEnd => simp [ReplyLine.family, ReplyLine.fields, ReplyLine.terminal, hword]
  | err code message => simp [ReplyLine.family, ReplyLine.terminal]

/-! ## A whole reply -/

theorem routed_text {reqId : Bytes} (hr : SP ∉ reqId) (r : ReplyLine) :
    Routed reqId (r.text reqId) := by
  obtain ⟨f, fs, -, htext⟩ := text_eq reqId r
  rw [htext]
  refine routed_of_family (family_not_mem r) hr ?_ _
  rcases family_cases r with h | h | h <;> rw [h] <;> exact ⟨_, _, rfl, by decide, by decide⟩

theorem bodiesFor_texts {reqId : Bytes} (hr : SP ∉ reqId) (rs : List ReplyLine) :
    bodiesFor reqId ((rs.map (·.text reqId)).map (kLogRespLinePrefix ++ ·)) =
      rs.map (·.text reqId) := by
  refine bodiesFor_routed fun b hb => ?_
  obtain ⟨r, -, rfl⟩ := List.mem_map.mp hb
  exact routed_text hr r

/-- The entry of a request whose lines are those of a reply. -/
theorem entry_of_reply {reqId : Bytes} {conn : List Bytes} {routed : List ReplyLine}
    (h : bodiesFor reqId conn = routed.map (·.text reqId)) (ch : ClientCtrlChannel) :
    (conn.foldl ClientCtrlChannel.routeLine (ch.registerPending reqId)).pending reqId =
      some ⟨routed.map (·.text reqId), (routed.map (·.text reqId)).any isEnd,
        (routed.map (·.text reqId)).any isError⟩ := by
  rw [collected, h]

theorem endOnlyAtEnd_iff {rs : List ReplyLine} :
    EndOnlyAtEnd rs ↔ ∀ routed, routed <+: rs →
      ((∃ r ∈ routed, (r.terminal || r.beginsEnd) = true) ↔ ∃ r ∈ routed, r.terminal = true) := by
  induction rs with
  | nil =>
    refine ⟨fun _ routed h => ?_, fun _ => trivial⟩
    rw [List.prefix_nil.mp h]
    simp
  | cons r rs ih =>
    constructor
    · rintro (hterm | ⟨hno, hrest⟩) routed h
      · cases routed with
        | nil => simp
        | cons r' routed =>
          obtain rfl := (List.cons_prefix_cons.mp h).1
          simp [hterm]
      · cases routed with
        | nil => simp
        | cons r' routed =>
          obtain ⟨rfl, hp⟩ := List.cons_prefix_cons.mp h
          simp only [List.mem_cons, exists_eq_or_imp, hno, Bool.or_false, ih.mp hrest routed hp]
    · intro h
      by_cases hterm : r.terminal = true
      · exact .inl hterm
      have hone := h [r] (by simp [List.cons_prefix_cons])
      simp only [List.mem_singleton, exists_eq_left, Bool.or_eq_true] at hone
      have hno : r.beginsEnd = false := Bool.eq_false_iff.mpr fun hb => hterm (hone.mp (.inr hb))
      refine .inr ⟨hno, ih.mpr fun routed hp => ?_⟩
      have := h (r :: routed) (List.cons_prefix_cons.mpr ⟨rfl, hp⟩)
      simpa only [List.mem_cons, exists_eq_or_imp, hno, Bool.or_false, hterm, false_or,
        Bool.false_eq_true] using this

/-- **Reply routing.** The request has the id that the server made for it, the hexadecimal
digits of `buf`. -/
theorem routesExactly_iff (buf : Bytes) (h : buf.length = 8) (rs : List ReplyLine) :
    RoutesExactly (generateReqId buf h).text rs ↔ EndOnlyAtEnd rs := by
  have hr : SP ∉ (generateReqId buf h).text := ReqId.not_mem_SP _
  have hend : ¬ascii "end" <+: (generateReqId buf h).text := fun hp =>
    absurd (isHexDigit_of_mem_hex (hp.subset (by decide : 110 ∈ ascii "end"))) (by decide)
  have hdone : ∀ routed : List ReplyLine,
      (routed.map (·.text (generateReqId buf h).text)).any isEnd = true ↔
        ∃ r ∈ routed, (r.terminal || r.beginsEnd) = true := by
    intro routed
    simp only [List.any_map, List.any_eq_true, Function.comp_apply, isEnd_text hr hend]
  rw [endOnlyAtEnd_iff]
  constructor
  · intro hroutes routed hp
    obtain ⟨resp, he, -, hiff⟩ := hroutes {} _ routed hp (bodiesFor_texts hr routed)
    rw [entry_of_reply (bodiesFor_texts hr routed)] at he
    obtain rfl := Option.some.inj he
    rw [← hdone, hiff]
  · intro hclean ch conn routed hp hbodies
    exact ⟨_, entry_of_reply hbodies ch, rfl, (hdone routed).trans (hclean routed hp)⟩

/-- A listing of one file, which meets the condition. -/
theorem routesExactly_listing :
    RoutesExactly (generateReqId [1, 2, 3, 4, 5, 6, 7, 8] rfl).text
      [.listBegin 1, .listFile (ascii "ntm-client-2024-05-01.log") 512 (ascii "2024-05-01"),
        .listEnd] :=
  (routesExactly_iff [1, 2, 3, 4, 5, 6, 7, 8] rfl _).mpr (by decide +kernel)

/-- A transfer of one chunk whose base64 text is `enda`: the chunk line ends it. -/
theorem chunk_ends_reply :
    ¬RoutesExactly (generateReqId [1, 2, 3, 4, 5, 6, 7, 8] rfl).text
      [.getBegin (ascii "ntm-client-2024-05-01.log") 3 (ascii "00"),
        .getChunk (Base64.encodeBlock (ascii "zwZ")), .getEnd] := by
  intro hroutes
  have hr := (generateReqId [1, 2, 3, 4, 5, 6, 7, 8] rfl).not_mem_SP
  have hp : [ReplyLine.getBegin (ascii "ntm-client-2024-05-01.log") 3 (ascii "00"),
      .getChunk (Base64.encodeBlock (ascii "zwZ"))] <+: [.getBegin
        (ascii "ntm-client-2024-05-01.log") 3 (ascii "00"),
        .getChunk (Base64.encodeBlock (ascii "zwZ")), .getEnd] := ⟨[.getEnd], rfl⟩
  obtain ⟨resp, he, -, hiff⟩ := hroutes {} _ _ hp (bodiesFor_texts hr _)
  rw [entry_of_reply (bodiesFor_texts hr _)] at he
  obtain rfl := Option.some.inj he
  obtain ⟨r, hmem, hterm⟩ := hiff.mp (by decide +kernel)
  simp only [List.mem_cons, List.not_mem_nil, or_false] at hmem
  rcases hmem with rfl | rfl <;> exact absurd hterm (by decide)

end TrafficMonitor.CtrlChannel
