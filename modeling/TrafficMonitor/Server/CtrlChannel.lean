import TrafficMonitor.Protocol

/-!
# The control channel of a client

`ClientCtrlChannel` collects the `L`-lines that answer an admin request: `registerPending`
opens an entry for a request id, `routeLLine` appends a line to the entry it names and
decides whether the line ends the response, `removePending` closes the entry.

Proved here:

* `routeLLine_pending`: a line changes the entry of its own request id and no other;
* `routeLine_pending`: over any lines of a connection, an entry collects exactly the
  bodies that carry its id, in order;
* `hasSub_token`: the text `" end"` occurs in a body exactly when one of its later tokens
  begins with `end`;
* `bodiesFor_routed`: lines with the request id as their second token all reach its entry.
-/

namespace TrafficMonitor.CtrlChannel

open Bytes

/-! ## Routing -/

structure LogCmdResponse where
  lines : List Bytes := []
  done : Bool := false
  isError : Bool := false
  deriving DecidableEq, Repr

structure ClientCtrlChannel where
  pending : Bytes → Option LogCmdResponse := fun _ => none
  ackedLevel : Bytes := []
  gotAck : Bool := false

def ClientCtrlChannel.registerPending (ch : ClientCtrlChannel) (reqId : Bytes) : ClientCtrlChannel :=
  { ch with pending := fun id => if id = reqId then some {} else ch.pending id }

def ClientCtrlChannel.removePending (ch : ClientCtrlChannel) (reqId : Bytes) : ClientCtrlChannel :=
  { ch with pending := fun id => if id = reqId then none else ch.pending id }

def kAckPrefix : Bytes := ascii "ack set_loglevel "

/-- The sub-type of a body: its first token. -/
def subtype (body : Bytes) : Bytes := ((Lines.cut SP body).map Prod.fst).getD body

/-- The body from its first blank on, where `find(" end", sp1)` looks. -/
def fromBlank (body : Bytes) : Bytes := (((Lines.cut SP body).map fun p => SP :: p.2)).getD []

/-- The request id that a body carries: its second token. -/
def replyId (body : Bytes) : Option Bytes :=
  (Lines.cut SP body).map fun p => ((Lines.cut SP p.2).map Prod.fst).getD p.2

def isError (body : Bytes) : Bool := subtype body = ascii "err"

/-- The line is taken for the last one of its response. -/
def isEnd (body : Bytes) : Bool :=
  (hasSub (ascii " end") (fromBlank body) && (subtype body = ascii "list" || subtype body = ascii "get"))
    || subtype body = ascii "del" || subtype body = ascii "del_all" || isError body

def LogCmdResponse.push (resp : LogCmdResponse) (body : Bytes) : LogCmdResponse where
  lines := resp.lines ++ [body]
  done := resp.done || isEnd body
  isError := resp.isError || CtrlChannel.isError body

/-- `routeLLine`, on the text after `"L "`. -/
def ClientCtrlChannel.routeLLine (ch : ClientCtrlChannel) (body : Bytes) : ClientCtrlChannel :=
  match stripPrefix kAckPrefix body with
  | some level =>
    { ch with ackedLevel := trimRight (fun c => c = CR || c = LF) level, gotAck := true }
  | none => match replyId body with
    | none => ch
    | some reqId => match ch.pending reqId with
      | none => ch
      | some resp =>
        { ch with pending := fun id => if id = reqId then some (resp.push body) else ch.pending id }

/-- The body that the line loop hands to `routeLLine`: an `L`-line, unless it reports an
update. -/
def routedBody (line : Bytes) : Option Bytes :=
  (stripPrefix kLogRespLinePrefix line).filter fun body => (stripPrefix (ascii "upd ") body).isNone

/-- What one line of the connection does to the channel. -/
def ClientCtrlChannel.routeLine (ch : ClientCtrlChannel) (line : Bytes) : ClientCtrlChannel :=
  (routedBody line).elim ch ch.routeLLine

/-- The bodies for one request id among the lines of a connection. -/
def bodiesFor (reqId : Bytes) (conn : List Bytes) : List Bytes :=
  (conn.filterMap routedBody).filter fun body =>
    (stripPrefix kAckPrefix body).isNone && replyId body = some reqId

/-! ## What an entry collects -/

theorem routeLLine_pending (ch : ClientCtrlChannel) (body reqId : Bytes) :
    (ch.routeLLine body).pending reqId =
      if (stripPrefix kAckPrefix body).isNone && replyId body = some reqId then
        (ch.pending reqId).map (·.push body)
      else ch.pending reqId := by
  unfold ClientCtrlChannel.routeLLine
  cases hack : stripPrefix kAckPrefix body with
  | some level => simp
  | none =>
    cases hid : replyId body with
    | none => simp
    | some id =>
      by_cases e : id = reqId
      · subst e
        cases hp : ch.pending id with
        | none => simp [hp]
        | some resp => simp [hp]
      · have e' : reqId ≠ id := fun h => e h.symm
        cases hp : ch.pending id with
        | none => simp [hp, e]
        | some resp => simp [hp, e, e']

/-- A response after the bodies that were pushed to it. -/
theorem foldl_push (bodies : List Bytes) (resp : LogCmdResponse) :
    bodies.foldl LogCmdResponse.push resp =
      ⟨resp.lines ++ bodies, resp.done || bodies.any isEnd, resp.isError || bodies.any isError⟩ := by
  induction bodies generalizing resp with
  | nil => simp
  | cons body bodies ih =>
    rw [List.foldl_cons, ih]
    simp [LogCmdResponse.push, Bool.or_assoc]

/-- **Routing.** An entry collects the bodies that carry its id, in order. -/
theorem routeLine_pending (conn : List Bytes) (ch : ClientCtrlChannel) (reqId : Bytes) :
    (conn.foldl ClientCtrlChannel.routeLine ch).pending reqId =
      (ch.pending reqId).map fun resp => (bodiesFor reqId conn).foldl LogCmdResponse.push resp := by
  induction conn generalizing ch with
  | nil => simp [bodiesFor]
  | cons line conn ih =>
    rw [List.foldl_cons, ih]
    cases hb : routedBody line with
    | none => simp [ClientCtrlChannel.routeLine, bodiesFor, hb]
    | some body =>
      simp only [ClientCtrlChannel.routeLine, hb, Option.elim_some, routeLLine_pending, bodiesFor,
        List.filterMap_cons, List.filter_cons]
      split
      · simp [Option.map_map, Function.comp_def]
      · rfl

/-- What a request finds in its entry after the lines of the connection. -/
theorem collected (conn : List Bytes) (ch : ClientCtrlChannel) (reqId : Bytes) :
    (conn.foldl ClientCtrlChannel.routeLine (ch.registerPending reqId)).pending reqId =
      some ⟨bodiesFor reqId conn, (bodiesFor reqId conn).any isEnd,
        (bodiesFor reqId conn).any isError⟩ := by
  rw [routeLine_pending]
  simp [ClientCtrlChannel.registerPending, foldl_push]

/-! ## Tokens -/

theorem subtype_append {word : Bytes} (rest : Bytes) (h : SP ∉ word) :
    subtype (word ++ SP :: rest) = word := by
  simp [subtype, Lines.cut_append SP word rest h]

theorem replyId_append {word reqId : Bytes} (rest : Bytes) (h : SP ∉ word) (hr : SP ∉ reqId) :
    replyId (word ++ SP :: (reqId ++ SP :: rest)) = some reqId := by
  simp [replyId, Lines.cut_append SP word _ h, Lines.cut_append SP reqId rest hr]

theorem fromBlank_append {word : Bytes} (rest : Bytes) (h : SP ∉ word) :
    fromBlank (word ++ SP :: rest) = SP :: rest := by
  simp [fromBlank, Lines.cut_append SP word rest h]

/-- A text that begins with a blank is not found inside a token. -/
theorem hasSub_skip_token (w t s : Bytes) (ht : SP ∉ t) :
    hasSub (SP :: w) (t ++ s) = hasSub (SP :: w) s := by
  induction t with
  | nil => rfl
  | cons c t ih =>
    simp only [List.mem_cons, not_or] at ht
    have hc : (SP :: w).isPrefixOf (c :: (t ++ s)) = false := by
      simp [List.isPrefixOf, ht.1]
    rw [List.cons_append, hasSub, hc, Bool.false_or, ih ht.2]

/-- Tokens, each after a blank. -/
def spaced (ts : List Bytes) : Bytes := ts.flatMap (SP :: ·)

/-- A blank and a word that has none are found before the next blank, or from it on. -/
theorem hasSub_blank {w : Bytes} (hw : SP ∉ w) (a b : Bytes) :
    hasSub (SP :: w) (a ++ SP :: b) = (hasSub (SP :: w) a || hasSub (SP :: w) (SP :: b)) := by
  induction a with
  | nil => simp [hasSub]
  | cons c a ih =>
    have hpre : (SP :: w).isPrefixOf (c :: (a ++ SP :: b)) = (SP :: w).isPrefixOf (c :: a) := by
      rw [Bool.eq_iff_iff, List.isPrefixOf_iff_prefix, List.isPrefixOf_iff_prefix,
        List.cons_prefix_cons, List.cons_prefix_cons, Lines.prefix_append_iff hw (by simp)]
    rw [List.cons_append, hasSub, hpre, ih]
    simp only [hasSub, Bool.or_assoc]

theorem hasSub_spaced {w : Bytes} (hw : SP ∉ w) (ts : List Bytes) :
    hasSub (SP :: w) (spaced ts) = ts.any fun t => hasSub (SP :: w) (SP :: t) := by
  induction ts with
  | nil => rfl
  | cons t ts ih =>
    rw [List.any_cons, ← ih]
    cases ts with
    | nil => simp [spaced, hasSub]
    | cons u ts =>
      have e : spaced (t :: u :: ts) = (SP :: t) ++ SP :: (u ++ spaced ts) := by simp [spaced]
      rw [e, hasSub_blank hw]
      simp [spaced]

/-- Without blanks, the text is found behind a blank exactly when it begins there. -/
theorem hasSub_word {w t : Bytes} (ht : SP ∉ t) :
    hasSub (SP :: w) (SP :: t) = w.isPrefixOf t := by
  have h := hasSub_skip_token w t [] ht
  rw [List.append_nil] at h
  rw [hasSub, h]
  simp [hasSub, List.isPrefixOf]

/-- **Tokens.** A blank and a word occur in spaced tokens exactly when a token begins with
the word. -/
theorem hasSub_token (w : Bytes) (ts : List Bytes) (hw : SP ∉ w) (ht : ∀ t ∈ ts, SP ∉ t) :
    hasSub (SP :: w) (spaced ts) = true ↔ ∃ t ∈ ts, w <+: t := by
  rw [hasSub_spaced hw, List.any_eq_true]
  refine exists_congr fun t => and_congr_right fun h => ?_
  rw [hasSub_word (ht t h), List.isPrefixOf_iff_prefix]

/-! ## Bodies that are routed -/

/-- The body is routed to the request. -/
def Routed (reqId body : Bytes) : Prop :=
  routedBody (kLogRespLinePrefix ++ body) = some body ∧ stripPrefix kAckPrefix body = none ∧
    replyId body = some reqId

/-- A family that begins neither like `ack` nor like `upd`, and the request id. -/
theorem routed_of_family {family reqId : Bytes} (hf : SP ∉ family) (hr : SP ∉ reqId)
    (hhead : ∃ c s, family = c :: s ∧ c ≠ 97 ∧ c ≠ 117) (rest : Bytes) :
    Routed reqId (family ++ SP :: (reqId ++ SP :: rest)) := by
  refine ⟨?_, ?_, replyId_append rest hf hr⟩ <;> obtain ⟨c, s, rfl, hack, hupd⟩ := hhead
  · have hno : stripPrefix (ascii "upd ") (c :: (s ++ SP :: (reqId ++ SP :: rest))) = none :=
      stripPrefix_head (Ne.symm hupd) _ _
    simp [routedBody, hno]
  · exact stripPrefix_head (Ne.symm hack) _ _

theorem bodiesFor_routed {reqId : Bytes} {bodies : List Bytes} (h : ∀ b ∈ bodies, Routed reqId b) :
    bodiesFor reqId (bodies.map (kLogRespLinePrefix ++ ·)) = bodies := by
  induction bodies with
  | nil => rfl
  | cons body bodies ih =>
    obtain ⟨hbody, hack, hid⟩ := h body (by simp)
    have ih := ih fun b hb => h b (by simp [hb])
    unfold bodiesFor at ih ⊢
    rw [List.map_cons, List.filterMap_cons, hbody]
    simp only [List.filter_cons, hack, hid, Option.isNone_none, decide_true, Bool.and_true, if_true,
      ih]

end TrafficMonitor.CtrlChannel
