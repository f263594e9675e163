import ScriptDebugger.Machine.Inspect
import ScriptDebugger.Proofs.Json.Parsed
import ScriptDebugger.Proofs.Wire.Messages
import ScriptDebugger.Session.Connection
/-!
# Assignments on the wire

A text that is accepted as a new value is read again by the agent, one level deeper, inside the
message. The reader's limit is the same on both sides. So an assignment arrives unless its value has
as many arrays and objects inside one another as the reader allows: then the message has one more,
and the agent discards it without an answer, while the session waits.

## Main results

* `HostMessage.decode?_assignment` — what the agent reads of an assignment.
* `Agent.receive_setVariable` — an assignment has one answer.
* `Agent.feed_frame`, `Agent.feed_discarded` — what a waiting agent does with the bytes of a frame.
* `Connection.ask_answered`, `Connection.ask_discarded` — what the caller gets.
* `accepted_assignment_arrives_or_lost` — the whole way of an accepted text, in both cases.
-/

namespace ScriptDebugger

/-! ## The message -/

namespace Wire

theorem nesting_assignment (reference : Nat) (name : String) (value : Json) :
    (HostMessage.setVariable reference name value).toJson.nesting = value.nesting + 1 := by
  simp [HostMessage.toJson, HostMessage.kind, HostMessage.fields, messageJson, Json.nesting,
    Json.nestingOfMembers, Json.ofNat]

/-- The numbers of an assignment are those of its value, and the reference. -/
theorem reread_assignment {reference : Nat} (href : reference < UInt32.size) (name : String)
    {value value' : Json} (hvalue : value.reread = some value') :
    (HostMessage.setVariable reference name value).toJson.reread =
      some (HostMessage.setVariable reference name value').toJson := by
  have hreference : (Json.ofNat reference).reread = some (.ofNat reference) := by
    have hholds : Json.Holds 0 (.ofNat reference) := .ofNat href
    exact Json.reread_of_fitsWord hholds.numbers
  simp [HostMessage.toJson, HostMessage.kind, HostMessage.fields, messageJson, Json.reread,
    Json.rereadMembers, hreference, hvalue]

/-- Reading an assignment brings its value into canonical form. -/
theorem HostMessage.ofJson?_assignment {reference : Nat} (href : reference < UInt32.size)
    (name : String) (value : Json) :
    HostMessage.ofJson? (HostMessage.setVariable reference name value).toJson =
      some (.setVariable reference name value.canonical) := by
  rw [HostMessage.ofJson?, HostMessage.toJson, splitKind?_messageJson (fields_ne_type _),
    Option.bind_some]
  simp (disch := simp) [HostMessage.kind, HostMessage.fields, HostMessage.ofKind?,
    Json.fields?_object, Json.nat32?_ofNat href, Json.string?]

/-- What the agent reads of an assignment: nothing, if the message is too deep. -/
theorem HostMessage.decode?_assignment {reference : Nat} (href : reference < UInt32.size)
    (name : String) {value value' : Json} (hvalue : value.reread = some value') :
    HostMessage.decode?
        (Text.Utf8.encode (HostMessage.setVariable reference name value).toJson.text) =
      if value.nesting < Json.Progress.depthLimit then
        some (.setVariable reference name value'.canonical)
      else none := by
  rw [HostMessage.decode?, jsonOfBytes?, Text.Utf8.decode?_encode, Option.bind_some,
    Json.parse?_text, nesting_assignment, reread_assignment href name hvalue]
  by_cases hroom : value.nesting < Json.Progress.depthLimit
  -- the message is one object around the value
  · rw [if_pos hroom, if_pos (Nat.succ_le_of_lt hroom), Option.bind_some,
      HostMessage.ofJson?_assignment href]
  · rw [if_neg hroom, if_neg fun h => hroom (Nat.lt_of_succ_le h)]
    rfl

end Wire

/-! ## The agent -/

namespace Debug.Agent

open Wire (DebuggerMessage HostMessage Decoder)

variable {σ : Type}

/-- Whether an agent waits for a message: nothing that came before is left, the link holds, and the
program has not ended. -/
structure Waits (a : Agent σ) : Prop where
  decoder : a.decoder = {}
  phase : a.phase ≠ .finished
  connected : a.connected = true
  capacity : a.capacity = none

/-- An agent that was just started waits. -/
theorem waits_start (engine : σ) : (start engine none).1.Waits where
  decoder := rfl
  phase := Phase.noConfusion
  connected := rfl
  capacity := rfl

theorem Waits.isServing {a : Agent σ} (h : a.Waits) :
    ¬(a.phase = .finished ∨ (!a.connected) = true) := by
  simp [h.phase, h.connected]

variable [Engine σ]

/-- A decoder that is empty has nothing to serve. -/
theorem serve_of_empty {a : Agent σ} (h : a.decoder = {}) (fuel limit : Nat) :
    serve fuel limit a = some (a, []) := by
  cases limit with
  | zero => rfl
  | succ limit =>
      have hsame : { a with decoder := {} } = a := by rw [← h]
      rw [serve]
      split
      · rfl
      · rw [h, Wire.nextMessage_empty]
        exact congrArg (fun b => some (b, [])) hsame

/-- Carrying out an assignment gives one answer: the new value, or a refusal. -/
theorem receive_setVariable {a : Agent σ} (h : a.Waits) (fuel reference : Nat) (name : String)
    (value : Json) :
    ∃ a' reply, receive fuel a (.setVariable reference name value) = some (a', [reply]) ∧
      a'.Waits ∧ ((∃ v, reply = .variableSet v) ∨ ∃ text, reply = .error text) := by
  have hsend (b : Agent σ) (hb : b.Waits) (message : DebuggerMessage) :
      b.send message = (b, [message]) := by
    rw [send, hb.connected, hb.capacity]
    rfl
  rw [receive, perform]
  rcases a.context.setVariable a.engine reference name value with ⟨engine, error | ⟨context, v⟩⟩
  · have hwaits : { a with engine }.Waits := ⟨h.decoder, h.phase, h.connected, h.capacity⟩
    exact ⟨_, _, congrArg some (hsend _ hwaits _), hwaits, .inr ⟨_, rfl⟩⟩
  · have hwaits : { a with context, engine }.Waits := ⟨h.decoder, h.phase, h.connected, h.capacity⟩
    exact ⟨_, _, congrArg some (hsend _ hwaits _), hwaits, .inl ⟨_, rfl⟩⟩

section

variable {a : Agent σ} (h : a.Waits) {payload : List UInt8} (hsize : payload.length < UInt64.size)

include h hsize

/-- The bytes of a frame are the first thing that a waiting agent serves. -/
theorem serve_frame (fuel limit : Nat) :
    serve fuel (limit + 1) { a with decoder := a.decoder.extend (Wire.encodeFrame payload) } =
      match HostMessage.decode? payload with
      | none => some (a, [])
      | some message =>
        (receive fuel a message).bind fun (a, sent) =>
          (serve fuel limit a).bind fun (a, more) => some (a, sent ++ more) := by
  have hextended :
      a.decoder.extend (Wire.encodeFrame payload) = ⟨Wire.encodeFrame payload, none⟩ := by
    rw [h.decoder]
    rfl
  have hsame : { a with decoder := {} } = a := by rw [← h.decoder]
  rw [serve, if_neg h.isServing, hextended, Wire.nextMessage_encodeFrame hsize]
  cases HostMessage.decode? payload with
  | none => exact congrArg (fun b => some (b, [])) hsame
  | some message =>
      simp only [hsame]
      rfl

/-- A waiting agent carries out the message of a frame. -/
theorem feed_frame {message : HostMessage} (hmessage : HostMessage.decode? payload = some message)
    {fuel : Nat} {a' : Agent σ} {sent : List DebuggerMessage}
    (hreceive : receive fuel a message = some (a', sent)) (ha' : a'.Waits) :
    a.feed fuel (Wire.encodeFrame payload) = some (a', sent) := by
  have hserve := serve_frame h hsize fuel (a.decoder.extend (Wire.encodeFrame payload)).weight
  rw [hmessage] at hserve
  simp only [hreceive, Option.bind_some, serve_of_empty ha'.decoder, List.append_nil] at hserve
  rw [feed]
  simp only [hserve]
  exact if_pos ha'.connected

/-- A waiting agent passes over a frame that is no message. -/
theorem feed_discarded (hmessage : HostMessage.decode? payload = none) (fuel : Nat) :
    a.feed fuel (Wire.encodeFrame payload) = some (a, []) := by
  have hserve := serve_frame h hsize fuel (a.decoder.extend (Wire.encodeFrame payload)).weight
  rw [hmessage] at hserve
  rw [feed]
  simp only [hserve]
  exact if_pos h.connected

end

end Debug.Agent

/-! ## The session -/

namespace Session

open Wire (DebuggerMessage HostMessage Decoder)
open Debug (Agent)

theorem bytesOf_singleton (reply : DebuggerMessage) : bytesOf [reply] = reply.encode :=
  List.append_nil _

/-- A session takes one reply from the bytes of one. -/
theorem takeAll_bytesOf {reply : DebuggerMessage} (hfits : reply.Fits)
    (hsize : reply.encode.length < UInt64.size) (limit : Nat) :
    Wire.takeAll (Decoder.nextMessage DebuggerMessage.decode?) (limit + 1)
      ⟨bytesOf [reply], none⟩ = ({}, [reply]) := by
  have hbytes : bytesOf [reply] = Wire.encodeFrame (Text.Utf8.encode reply.toJson.text) :=
    bytesOf_singleton reply
  rw [hbytes, Wire.takeAll_encodeFrame (Wire.length_lt_of_encodeFrame hsize) limit,
    DebuggerMessage.decode?_payload hfits]
  rfl

namespace Connection

variable {σ : Type}

/-- Whether a request can be made: the agent waits for a message, and the session is open and not
claimed, with nothing left of what came before. -/
structure IsReady (c : Connection (Agent σ)) : Prop where
  peer : c.peer.Waits
  decoder : c.decoder = {}
  mailbox : c.mailbox = {}

theorem isReady_start (engine : σ) : IsReady { peer := (Agent.start engine none).1 } :=
  ⟨Agent.waits_start engine, rfl, rfl⟩

variable [Engine σ] {α : Type}

/-- Whether the session is left waiting: it is claimed, there is no reply to take, and whoever asks
next is turned away or waits as well. -/
structure IsStuck (c : Connection (Agent σ)) : Prop where
  busy : c.mailbox.busy = true
  waits : c.takeReply? = none
  refuses : ∀ {β : Type} (fuel : Nat) (q : Inquiry β),
    c.begin? fuel q = if q.waitsIdle then none else some (c, .error .busy)

section

variable {c : Connection (Agent σ)}

theorem isStuck_of_mailbox (h : c.mailbox = { busy := true }) : c.IsStuck := by
  constructor
  · rw [h]
  · rw [takeReply?, h]
    rfl
  · intro β fuel q
    have hclaim : c.mailbox.claim q.waitsIdle =
        (c.mailbox, if q.waitsIdle then .wait else .busy) := by
      rw [h]
      rfl
    rw [begin?, hclaim]
    cases q.waitsIdle with
    | true => rfl
    | false => rfl

/-- What comes in goes to the mailbox while the agent is there. -/
theorem absorb_eq (hpeer : c.peer.Waits) (hdecoder : c.decoder = {})
    (hclosed : c.mailbox.closed = false) {bytes : List UInt8} {replies : List DebuggerMessage}
    (hreplies : ∀ limit, Wire.takeAll (Decoder.nextMessage DebuggerMessage.decode?) (limit + 1)
      ⟨bytes, none⟩ = ({}, replies)) :
    c.absorb bytes = { c with mailbox := c.mailbox.deliver replies } := by
  have hextended : c.decoder.extend bytes = ⟨bytes, none⟩ := by
    rw [hdecoder]
    rfl
  have hopen : Peer.hasClosed c.peer = false := by
    show (c.peer.phase == .finished) = false
    exact beq_eq_false_iff_ne.2 hpeer.phase
  unfold absorb
  simp only [hclosed, hextended, hreplies, hopen, Bool.false_eq_true, if_false]
  rw [← hdecoder]

variable {fuel : Nat} {q : Inquiry α}

/-- Claiming a session that is ready sends the message. -/
theorem begin?_of_isReady (h : c.IsReady) {agent : Agent σ} {sent : List DebuggerMessage}
    (hfeed : c.peer.feed fuel q.message.encode = some (agent, sent)) :
    c.begin? fuel q =
      some
        (absorb { c with peer := agent, mailbox := { busy := true } } (bytesOf sent), .ok ()) := by
  have hclaim : c.mailbox.claim q.waitsIdle = ({ busy := true }, .granted) := by
    rw [h.mailbox]
    rfl
  have hreceive : Peer.receive fuel c.peer q.message.encode = some (agent, bytesOf sent) :=
    congrArg (Option.map fun (a, sent) => (a, bytesOf sent)) hfeed
  rw [begin?, hclaim]
  simp only [send, hreceive]
  rfl

/-- A request that the agent discards leaves the session waiting. -/
theorem ask_discarded (h : c.IsReady)
    (hfeed : c.peer.feed fuel q.message.encode = some (c.peer, [])) :
    ∃ c', c.begin? fuel q = some (c', .ok ()) ∧ c'.IsStuck ∧ c.ask fuel q = none := by
  let claimed : Connection (Agent σ) := { c with mailbox := { busy := true } }
  have habsorb : claimed.absorb [] = claimed :=
    absorb_eq (c := claimed) h.peer h.decoder rfl fun limit => Wire.takeAll_empty (limit + 1)
  have hbegin : c.begin? fuel q = some (claimed.absorb [], .ok ()) := begin?_of_isReady h hfeed
  rw [habsorb] at hbegin
  have hstuck : claimed.IsStuck := isStuck_of_mailbox rfl
  refine ⟨_, hbegin, hstuck, ?_⟩
  rw [ask_eq_begin_finish hbegin, finish?]
  exact congrArg (Option.map _) hstuck.waits

/-- A request that the agent answers with a message that can be read gets what the message says. -/
theorem ask_answered (h : c.IsReady) {agent : Agent σ} {reply : DebuggerMessage}
    (hfeed : c.peer.feed fuel q.message.encode = some (agent, [reply])) (hagent : agent.Waits)
    (hreply : reply.Fits) (hsize : reply.encode.length < UInt64.size)
    (hnotice : ∀ answer, q.notice answer = none) :
    ∃ c', c.ask fuel q = some (c', q.interpret reply) ∧ c'.IsReady := by
  let claimed : Connection (Agent σ) := { c with peer := agent, mailbox := { busy := true } }
  have habsorb : claimed.absorb (bytesOf [reply]) =
      { claimed with mailbox := { busy := true, inbox := [reply] } } :=
    absorb_eq (c := claimed) hagent h.decoder rfl (takeAll_bytesOf hreply hsize)
  have hbegin : c.begin? fuel q = some (claimed.absorb (bytesOf [reply]), .ok ()) :=
    begin?_of_isReady h hfeed
  rw [habsorb] at hbegin
  have hsilent : noticesOf q (q.interpret reply) = [] := by
    cases q.interpret reply with
    | ok answer => exact congrArg Option.toList (hnotice answer)
    | error failure => rfl
  refine ⟨{ claimed with mailbox := {}, notices := c.notices ++ [] }, ?_, ?_⟩
  · rw [ask_eq_begin_finish hbegin, ← hsilent]
    rfl
  · exact ⟨hagent, h.decoder, rfl⟩

end

end Connection

/-! ## Accepted texts -/

/-- Whether an assignment arrives: the agent decodes it, with its reference and its name, and
answers it, and the caller gets the new value or the agent's refusal, if the answer can be
written. -/
structure Arrives (reference : Nat) (name : String) (q : Inquiry Wire.Variable) : Prop where
  decoded : ∃ value, Wire.HandsOut HostMessage.decode? q.message.encode
    [.setVariable reference name value]
  answered : ∀ {σ : Type} [Engine σ] (fuel : Nat) (c : Connection (Agent σ)), c.IsReady →
    ∃ agent reply, c.peer.feed fuel q.message.encode = some (agent, [reply]) ∧
      (reply.Fits → reply.encode.length < UInt64.size →
        ∃ c' outcome, c.ask fuel q = some (c', outcome) ∧ c'.IsReady ∧
          ((∃ v, outcome = .ok v) ∨ ∃ text, outcome = .error (.remote text)))

/-- Whether an assignment is lost: the agent discards it, sends nothing, and is as before, and the
session is left waiting. -/
structure IsLost (q : Inquiry Wire.Variable) : Prop where
  discarded : Wire.HandsOut HostMessage.decode? q.message.encode []
  unanswered : ∀ {σ : Type} [Engine σ] (fuel : Nat) (c : Connection (Agent σ)), c.IsReady →
    c.peer.feed fuel q.message.encode = some (c.peer, []) ∧
      ∃ c', c.begin? fuel q = some (c', .ok ()) ∧ c'.IsStuck ∧ c.ask fuel q = none

section

variable {reference : Nat} (href : reference < UInt32.size) (name : String) {value : Json}
  (hvalue : Json.StandsAt Json.Number.IsFinite 0 value)
  (hsize : (assign reference name value).message.encode.length < UInt64.size)

include href hvalue hsize

/-- An assignment arrives where the value leaves room for the message around it. -/
theorem arrives_of_nesting (hroom : value.nesting < Json.Progress.depthLimit) :
    Arrives reference name (assign reference name value) := by
  obtain ⟨value', hreread⟩ := hvalue.exists_reread
  have hpayload := Wire.length_lt_of_encodeFrame hsize
  have hdecode := HostMessage.decode?_assignment href name hreread
  rw [if_pos hroom] at hdecode
  constructor
  · exact ⟨value'.canonical, Wire.handsOut_of_decode? hpayload hdecode⟩
  · intro σ _ fuel c hready
    obtain ⟨agent, reply, hreceive, hagent, hkind⟩ :=
      Agent.receive_setVariable hready.peer fuel reference name value'.canonical
    have hfeed := Agent.feed_frame hready.peer hpayload hdecode hreceive hagent
    refine ⟨agent, reply, hfeed, fun hfits hsmall => ?_⟩
    obtain ⟨c', hask, hready'⟩ :=
      Connection.ask_answered hready hfeed hagent hfits hsmall fun answer => rfl
    refine ⟨c', _, hask, hready', ?_⟩
    cases hkind with
    | inl hset =>
        obtain ⟨v, rfl⟩ := hset
        exact .inl ⟨v, rfl⟩
    | inr hrefused =>
        obtain ⟨text, rfl⟩ := hrefused
        exact .inr ⟨text, rfl⟩

/-- An assignment is lost where the message around the value is too deep. -/
theorem isLost_of_nesting (hfull : value.nesting = Json.Progress.depthLimit) :
    IsLost (assign reference name value) := by
  obtain ⟨value', hreread⟩ := hvalue.exists_reread
  have hpayload := Wire.length_lt_of_encodeFrame hsize
  have hdecode := HostMessage.decode?_assignment href name hreread
  rw [if_neg (by omega)] at hdecode
  constructor
  · exact Wire.handsOut_of_decode? hpayload hdecode
  · intro σ _ fuel c hready
    have hfeed := Agent.feed_discarded hready.peer hpayload hdecode fuel
    exact ⟨hfeed, Connection.ask_discarded hready hfeed⟩

end

/-- A text that is accepted as a new value has no more arrays and objects inside one another than
the reader allows. With fewer of them the assignment arrives and is answered; with as many it is
lost. -/
theorem accepted_assignment_arrives_or_lost {reference : Nat} {name literal : String}
    {q : Inquiry Wire.Variable} (haccepted : assignText reference name literal = .ok q)
    (href : reference < UInt32.size) (hsize : q.message.encode.length < UInt64.size) :
    ∃ value, Json.read? literal = some value ∧ q = assign reference name value ∧
      value.nesting ≤ Json.Progress.depthLimit ∧
      (value.nesting < Json.Progress.depthLimit → Arrives reference name q) ∧
      (value.nesting = Json.Progress.depthLimit → IsLost q) := by
  rw [assignText] at haccepted
  cases hread : Json.read? literal with
  | none =>
      rw [hread] at haccepted
      cases haccepted
  | some value =>
      rw [hread] at haccepted
      obtain rfl := Except.ok.inj haccepted
      have hvalue := Json.standsAt_of_read? hread
      have hdepth := hvalue.depth
      rw [Nat.zero_add] at hdepth
      exact ⟨value, rfl, rfl, hdepth, arrives_of_nesting href name hvalue hsize,
        isLost_of_nesting href name hvalue hsize⟩

theorem accepted_assignment_arrives_or_lost_list :
    assignText 1 "x" "[1]" = .ok (assign 1 "x" (.array [.number (.int 1)])) ∧
      1 < UInt32.size ∧
      (assign 1 "x" (.array [.number (.int 1)])).message.encode.length < UInt64.size ∧
      Arrives 1 "x" (assign 1 "x" (.array [.number (.int 1)])) := by
  have hread : Json.read? "[1]" = some (.array [.number (.int 1)]) := by cbv
  have haccepted : assignText 1 "x" "[1]" = .ok (assign 1 "x" (.array [.number (.int 1)])) := by
    rw [assignText, hread]
  have hsize : (assign 1 "x" (.array [.number (.int 1)])).message.encode.length < UInt64.size := by
    decide +kernel
  obtain ⟨value, hvalue, -, -, harrives, -⟩ :=
    accepted_assignment_arrives_or_lost haccepted (by decide) hsize
  have hroom : value.nesting < Json.Progress.depthLimit := by
    obtain rfl := Option.some.inj (hvalue.symm.trans hread)
    decide
  exact ⟨haccepted, by decide, hsize, harrives hroom⟩

/-- Arrays inside one another, and nothing in the innermost one but a null. -/
def nested : Nat → Json
  | 0 => .null
  | n + 1 => .array [nested n]

theorem nesting_nested (n : Nat) : (nested n).nesting = n := by
  induction n with
  | zero => rfl
  | succ n ih =>
      rw [nested, Json.nesting, Json.nestingOfItems, ih, Json.nestingOfItems, Nat.max_zero]

theorem canonical_nested (n : Nat) : (nested n).canonical = nested n := by
  induction n with
  | zero => rfl
  | succ n ih => rw [nested, Json.canonical, Json.canonicalItems, ih, Json.canonicalItems]

theorem fitsWord_nested (n : Nat) : (nested n).AllNumbers Json.Number.FitsWord := by
  induction n with
  | zero => trivial
  | succ n ih => exact ⟨ih, trivial⟩

/-- Arrays up to the reader's limit are read as they are written. -/
theorem read?_nested {n : Nat} (h : n ≤ Json.Progress.depthLimit) :
    Json.read? (nested n).text = some (nested n) := by
  have hdepth : (nested n).nesting ≤ Json.Progress.depthLimit := by rwa [nesting_nested]
  rw [Json.read?, Json.parse?_text_of_fitsWord (fitsWord_nested n) hdepth, Option.map_some,
    canonical_nested]

/-- A text of as many arrays as the reader allows is accepted, and the assignment is lost: a session
with an agent that was just started waits for its answer forever. -/
theorem deepest_assignment_lost :
    assignText 1 "x" (nested 127).text = .ok (assign 1 "x" (nested 127)) ∧
      IsLost (assign 1 "x" (nested 127)) ∧
      ∀ (fuel : Nat) (engine : Machine.State),
        Connection.ask fuel { peer := (Agent.start engine none).1 } (assign 1 "x" (nested 127)) =
          none := by
  have hread : Json.read? (nested 127).text = some (nested 127) := read?_nested (by decide)
  have hsize : (assign 1 "x" (nested 127)).message.encode.length < UInt64.size := by
    decide +kernel
  have hlost : IsLost (assign 1 "x" (nested 127)) :=
    isLost_of_nesting (by decide) "x" (Json.standsAt_of_read? hread) hsize (nesting_nested 127)
  refine ⟨by rw [assignText, hread], hlost, fun fuel engine => ?_⟩
  obtain ⟨-, c', -, -, hask⟩ := hlost.unanswered fuel _ (Connection.isReady_start engine)
  exact hask

end Session

end ScriptDebugger
