import ScriptDebugger.Proofs.Session.Handshake
import ScriptDebugger.Proofs.Wire.Lines
/-!
# What asking comes to

A session that asks a waiting agent, and gets an outcome, has had its message read, and the agent
has served it. Either the agent sent one reply, the session read it, and both are as ready as
before; or the program ran to its end, and the connection is closed. Nothing is assumed of the
lengths of the messages: where one is not read, the session waits for ever and has no outcome.

## Main results

* `Agent.receive_cases` — how a waiting agent is left by a message.
* `Agent.feed_encode` — what a waiting agent makes of the bytes of a message.
* `Connection.exists_ask` — a message and a reply that can be read have an outcome.
* `Connection.ask_inv` — what stands behind an outcome.
-/

namespace ScriptDebugger

open Wire (DebuggerMessage HostMessage Decoder heard?)

/-- What the agent reads of the bytes of a message. -/
def Wire.HostMessage.heard? (m : HostMessage) : Option HostMessage :=
  Wire.heard? HostMessage.decode? (Text.Utf8.encode m.toJson.text)

/-- What the session reads of the bytes of a reply. -/
def Wire.DebuggerMessage.heard? (m : DebuggerMessage) : Option DebuggerMessage :=
  Wire.heard? DebuggerMessage.decode? (Text.Utf8.encode m.toJson.text)

namespace Wire

theorem decode?_of_heard? {α : Type} {decode? : List UInt8 → Option α} {payload : List UInt8}
    {m : α} (h : heard? decode? payload = some m) : decode? payload = some m := by
  unfold heard? at h
  split at h
  · exact h
  · cases h

/-- A message that fits, and is not too long, is read as it is. -/
theorem HostMessage.heard?_of_fits {m : HostMessage} (h : m.Fits)
    (hsize : m.encode.length < UInt64.size) : m.heard? = some m := by
  rw [HostMessage.heard?, Wire.heard?, if_pos (length_lt_of_encodeFrame hsize),
    HostMessage.decode?_payload h]

/-- A reply that fits, and is not too long, is read as it is. -/
theorem DebuggerMessage.heard?_of_fits {m : DebuggerMessage} (h : m.Fits)
    (hsize : m.encode.length < UInt64.size) : m.heard? = some m := by
  rw [DebuggerMessage.heard?, Wire.heard?, if_pos (length_lt_of_encodeFrame hsize),
    DebuggerMessage.decode?_payload h]

end Wire

namespace Debug.Agent

variable {σ : Type} {a b : Agent σ} {fuel : Nat} {sent : List DebuggerMessage}

theorem send_of_waits (h : a.Waits) (message : DebuggerMessage) :
    a.send message = (a, [message]) := by
  rw [send, h.connected, h.capacity]
  rfl

/-- How a waiting agent is left by a message: it waits again and has sent a message at most, or its
program has ended. -/
inductive Left (b : Agent σ) : List DebuggerMessage → Prop
  | silent (hwaits : b.Waits) : Left b []
  | replied (hwaits : b.Waits) (reply : DebuggerMessage) : Left b [reply]
  | ended (hdecoder : b.decoder = {}) (hconnected : b.connected = true)
    (hphase : b.phase = .finished) : Left b []

variable [Engine σ]

theorem go_cases (h : a.Waits) {mode : RunMode} (hgo : a.go fuel mode = some (b, sent)) :
    Left b sent := by
  have hleave : (a.leave mode).decoder = {} ∧ (a.leave mode).connected = true ∧
      (a.leave mode).capacity = none := by
    unfold leave
    split
    · exact ⟨h.decoder, h.connected, h.capacity⟩
    · exact ⟨h.decoder, h.connected, h.capacity⟩
    · exact ⟨h.decoder, h.connected, h.capacity⟩
  obtain ⟨hdecoder, hconnected, hcapacity⟩ := hleave
  rw [go] at hgo
  rcases hrun : (a.leave mode).context.runWithin fuel (a.leave mode).engine with _ | ⟨c, s, stop⟩
  · simp [hrun] at hgo
  · simp only [hrun] at hgo
    cases stop with
    | none =>
        obtain ⟨rfl, rfl⟩ := Prod.mk.inj (Option.some.inj hgo)
        exact .ended hdecoder hconnected rfl
    | some stop =>
        have hwaits : { a.leave mode with context := c, engine := s, phase := .paused }.Waits :=
          ⟨hdecoder, Phase.noConfusion, hconnected, hcapacity⟩
        have hsent := send_of_waits hwaits (announcement c s stop)
        obtain ⟨rfl, rfl⟩ := Prod.mk.inj (hsent.symm.trans (Option.some.inj hgo))
        exact .replied hwaits _

theorem receive_cases (h : a.Waits) {message : HostMessage}
    (hreceive : a.receive fuel message = some (b, sent)) : Left b sent := by
  rw [receive] at hreceive
  generalize perform a.context a.engine message = performed at hreceive
  obtain ⟨c, s, reply, outcome⟩ := performed
  have hwaits : { a with context := c, engine := s }.Waits :=
    ⟨h.decoder, h.phase, h.connected, h.capacity⟩
  cases outcome with
  | go mode => exact go_cases hwaits hreceive
  | serve =>
      cases reply with
      | none =>
          obtain ⟨rfl, rfl⟩ := Prod.mk.inj (Option.some.inj hreceive)
          exact .silent hwaits
      | some reply =>
          simp only [send_of_waits hwaits] at hreceive
          obtain ⟨rfl, rfl⟩ := Prod.mk.inj (Option.some.inj hreceive)
          exact .replied hwaits reply

/-- An agent that waited, and has replied, waits again. -/
theorem waits_of_reply (h : a.Waits) {message : HostMessage} {reply : DebuggerMessage}
    (hreceive : a.receive fuel message = some (b, [reply])) : b.Waits := by
  cases receive_cases h hreceive with
  | replied hwaits => exact hwaits

/-- A waiting agent serves the message that it reads of the bytes, and goes on waiting where it
reads none. -/
theorem feed_encode (h : a.Waits) (m : HostMessage) (fuel : Nat) :
    match m.heard? with
    | none => ∃ b, a.feed fuel m.encode = some (b, []) ∧ b.phase ≠ .finished
    | some message => a.feed fuel m.encode = a.receive fuel message := by
  have hextended : a.decoder.extend m.encode = ⟨m.encode, none⟩ := by
    rw [h.decoder]
    rfl
  obtain ⟨d, hnext, hempty⟩ :=
    Wire.nextMessage_encodeJson m.toJson (show Wire.heard? _ _ = m.heard? from rfl)
  cases hheard : m.heard? with
  | none =>
      have hserve (limit : Nat) : serve fuel (limit + 1) { a with decoder := ⟨m.encode, none⟩ } =
          some ({ a with decoder := d }, []) := by
        rw [serve, if_neg h.isServing]
        simp only [HostMessage.encode, hnext, hheard]
      rw [feed]
      simp only [hextended, hserve]
      exact ⟨_, if_pos h.connected, h.phase⟩
  | some message =>
      obtain rfl := hempty (hheard ▸ Option.some_ne_none message)
      have hsame : { a with decoder := {} } = a := by rw [← h.decoder]
      have hserve (limit : Nat) : serve fuel (limit + 1) { a with decoder := ⟨m.encode, none⟩ } =
          (a.receive fuel message).bind fun received =>
            (serve fuel limit received.1).bind fun rest => some (rest.1, received.2 ++ rest.2) := by
        rw [serve, if_neg h.isServing]
        simp only [HostMessage.encode, hnext, hheard, hsame]
        rfl
      rw [feed]
      simp only [hextended, hserve]
      cases hreceive : a.receive fuel message with
      | none => rfl
      | some result =>
          obtain ⟨b, sent⟩ := result
          have hleft : b.decoder = {} ∧ b.connected = true := by
            cases receive_cases h hreceive with
            | silent hwaits => exact ⟨hwaits.decoder, hwaits.connected⟩
            | replied hwaits => exact ⟨hwaits.decoder, hwaits.connected⟩
            | ended hdecoder hconnected => exact ⟨hdecoder, hconnected⟩
          simp only [Option.bind_some, serve_of_empty hleft.1, List.append_nil]
          exact if_pos hleft.2

end Debug.Agent

namespace Session.Connection

open Debug (Agent)

variable {σ α : Type} [Engine σ] {c c' : Connection (Agent σ)} {fuel : Nat} {q : Inquiry α}
  {outcome : Except Failure α}

/-- What stands behind the outcome of asking a waiting agent. -/
inductive Answered (fuel : Nat) (c : Connection (Agent σ)) (q : Inquiry α) (message : HostMessage) :
    Connection (Agent σ) → Except Failure α → Prop
  /-- The agent replied, and the session read the reply. -/
  | replied {c' : Connection (Agent σ)} {sent reply : DebuggerMessage}
    (hreceive : c.peer.receive fuel message = some (c'.peer, [sent]))
    (hreply : sent.heard? = some reply) (hready : c'.IsReady) :
    Answered fuel c q message c' (q.interpret reply)
  /-- The program ran to its end. -/
  | ended {c' : Connection (Agent σ)}
    (hreceive : c.peer.receive fuel message = some (c'.peer, []))
    (hclosed : c'.mailbox.closed = true) : Answered fuel c q message c' (.error .closed)

section

variable (h : c.IsReady) {agent : Agent σ}

include h

/-- A session that gets no bytes while the agent is there has no outcome. -/
theorem ask_of_silent (hfeed : c.peer.feed fuel q.message.encode = some (agent, []))
    (hphase : agent.phase ≠ .finished) : c.ask fuel q = none := by
  have hopen : Peer.hasClosed agent = false := beq_eq_false_iff_ne.2 hphase
  have htaken : ∀ limit, Wire.takeAll (Decoder.nextMessage DebuggerMessage.decode?) limit {} =
      ({}, []) := Wire.takeAll_empty
  have hnone : bytesOf [] = [] := rfl
  rw [ask_eq_begin_finish (begin?_of_isReady h hfeed), hnone]
  unfold absorb
  simp only [h.decoder, Decoder.extend, List.append_nil, htaken, hopen]
  rfl

/-- A session that gets no bytes of an agent that has gone learns that the program has ended. -/
theorem ask_of_ended (hfeed : c.peer.feed fuel q.message.encode = some (agent, []))
    (hphase : agent.phase = .finished) :
    ∃ c', c.ask fuel q = some (c', .error .closed) ∧ c'.peer = agent ∧
      c'.mailbox.closed = true := by
  have hgone : Peer.hasClosed agent = true := beq_iff_eq.2 hphase
  have htaken : ∀ limit, Wire.takeAll (Decoder.nextMessage DebuggerMessage.decode?) limit {} =
      ({}, []) := Wire.takeAll_empty
  have hnone : bytesOf [] = [] := rfl
  rw [ask_eq_begin_finish (begin?_of_isReady h hfeed), hnone]
  unfold absorb
  simp only [h.decoder, Decoder.extend, List.append_nil, htaken, hgone]
  exact ⟨_, rfl, rfl, rfl⟩

/-- A session that gets the bytes of a reply reads it, or has no outcome. -/
theorem ask_of_replied {sent : DebuggerMessage}
    (hfeed : c.peer.feed fuel q.message.encode = some (agent, [sent])) (hwaits : agent.Waits) :
    match sent.heard? with
    | none => c.ask fuel q = none
    | some reply =>
      ∃ c', c.ask fuel q = some (c', q.interpret reply) ∧ c'.peer = agent ∧ c'.IsReady := by
  have hopen : Peer.hasClosed agent = false := beq_eq_false_iff_ne.2 hwaits.phase
  have hextended : ({} : Decoder).extend (bytesOf [sent]) = ⟨sent.encode, none⟩ := by
    rw [bytesOf_singleton]
    rfl
  obtain ⟨d, htaken, hempty⟩ := Wire.takeAll_encodeJson sent.toJson
    (show Wire.heard? _ _ = sent.heard? from rfl) (⟨sent.encode, none⟩ : Decoder).weight
  rw [ask_eq_begin_finish (begin?_of_isReady h hfeed)]
  unfold absorb
  simp only [h.decoder, hextended, hopen, DebuggerMessage.encode] at htaken ⊢
  simp only [htaken]
  cases hheard : sent.heard? with
  | none => rfl
  | some reply =>
      obtain rfl := hempty (by rw [hheard]; nofun)
      exact ⟨_, rfl, rfl, hwaits, rfl, rfl⟩

/-- A message and a reply that can be read have an outcome. -/
theorem exists_ask {message : HostMessage} (hheard : q.message.heard? = some message)
    {sent reply : DebuggerMessage}
    (hreceive : c.peer.receive fuel message = some (agent, [sent]))
    (hreply : sent.heard? = some reply) :
    ∃ c', c.ask fuel q = some (c', q.interpret reply) ∧ c'.peer = agent ∧ c'.IsReady := by
  have hfeed := Agent.feed_encode h.peer q.message fuel
  rw [hheard] at hfeed
  have hread := ask_of_replied h (hfeed.trans hreceive) (Agent.waits_of_reply h.peer hreceive)
  rw [hreply] at hread
  exact hread

/-- What stands behind an outcome. -/
theorem ask_inv (hask : c.ask fuel q = some (c', outcome)) :
    ∃ message, q.message.heard? = some message ∧ Answered fuel c q message c' outcome := by
  have hfeed := Agent.feed_encode h.peer q.message fuel
  cases hheard : q.message.heard? with
  | none =>
      rw [hheard] at hfeed
      obtain ⟨b, hfeed, hphase⟩ := hfeed
      rw [ask_of_silent h hfeed hphase] at hask
      cases hask
  | some message =>
      rw [hheard] at hfeed
      refine ⟨message, rfl, ?_⟩
      cases hreceive : c.peer.receive fuel message with
      | none =>
          rw [ask_of_feed_eq_none h (hfeed.trans hreceive)] at hask
          cases hask
      | some result =>
          obtain ⟨agent, sent⟩ := result
          have hserved := hfeed.trans hreceive
          cases Agent.receive_cases h.peer hreceive with
          | silent hwaits =>
              rw [ask_of_silent h hserved hwaits.phase] at hask
              cases hask
          | ended _ _ hphase =>
              obtain ⟨last, hlast, rfl, hclosed⟩ := ask_of_ended h hserved hphase
              obtain ⟨rfl, rfl⟩ := Prod.mk.inj (Option.some.inj (hlast.symm.trans hask))
              exact .ended hreceive hclosed
          | replied hwaits sent =>
              have hread := ask_of_replied h hserved hwaits
              cases hreply : sent.heard? with
              | none =>
                  rw [hreply] at hread
                  rw [hread] at hask
                  cases hask
              | some reply =>
                  rw [hreply] at hread
                  obtain ⟨last, hlast, rfl, hready⟩ := hread
                  obtain ⟨rfl, rfl⟩ := Prod.mk.inj (Option.some.inj (hlast.symm.trans hask))
                  exact .replied hreceive hreply hready

end

/-- The messages of a handshake fit where the one is that the agent answers with. -/
theorem LoadFits.of_receive {σ : Type} [Engine σ] {fuel : Nat} {a b : Agent σ} {path : String}
    {reply : DebuggerMessage} (h : a.Waits)
    (hmessage : (HostMessage.loadProgram path).encode.length < UInt64.size)
    (hreceive : a.receive fuel (.loadProgram path) = some (b, [reply])) (hfits : reply.Fits)
    (hreply : reply.encode.length < UInt64.size) : LoadFits fuel a path where
  message := hmessage
  reply c sent hfeed answer hanswer := by
    have hserved := Agent.feed_frame h (Wire.length_lt_of_encodeFrame hmessage)
      (HostMessage.decode?_payload (m := .loadProgram path) trivial) hreceive
      (Agent.waits_of_reply h hreceive)
    obtain ⟨-, rfl⟩ := Prod.mk.inj (Option.some.inj (hserved.symm.trans hfeed))
    obtain rfl := List.mem_singleton.1 hanswer
    exact ⟨hfits, hreply⟩

/-- A session whose connection has ended turns everybody away. -/
theorem ask_of_closed (h : c.mailbox.closed = true) (fuel : Nat) (q : Inquiry α) :
    c.ask fuel q = some (c, .error .closed) := by
  have hclaim : c.mailbox.claim q.waitsIdle = (c.mailbox, .closed) := if_pos h
  have hbegin : c.begin? fuel q = some (c, .error .closed) := by rw [begin?, hclaim]
  rw [ask, hbegin]

end Session.Connection

end ScriptDebugger
