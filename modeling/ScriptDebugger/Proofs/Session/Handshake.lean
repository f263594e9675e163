import ScriptDebugger.Proofs.Session.Correlation
/-!
# The handshake

A session starts with the agent's greeting, and with the announcement of the program that the
session names. After that nothing is on its way, the inbox is empty, and the agent has its program,
so that requests and replies correlate from then on.

## Main results

* `Connection.accept_start` — what a session has taken when the agent has greeted.
* `Agent.feed_frame_inv` — what a waiting agent made of a frame.
* `isFresh_of_start` — what a handshake leaves that succeeds.
* `exists_start` — an agent that announces its program lets the handshake succeed.
* `AtRest.exchange` — what callers, reader and agent do for a request that nothing disturbs.
* `requests_and_replies_correlate` — what callers may rely on in every state behind it.
-/

namespace ScriptDebugger

open Wire (DebuggerMessage HostMessage Decoder)

namespace Debug.Agent

variable {σ : Type} [Engine σ] {a b : Agent σ}

/-- What a waiting agent made of the message of a frame. -/
theorem feed_frame_inv (h : a.Waits) {payload : List UInt8} (hsize : payload.length < UInt64.size)
    {message : HostMessage} (hmessage : HostMessage.decode? payload = some message) {fuel : Nat}
    {sent : List DebuggerMessage}
    (hfeed : a.feed fuel (Wire.encodeFrame payload) = some (b, sent)) :
    ∃ c, Settles message a c sent ∧ (c.connected = true → b = c) := by
  have hserve := serve_frame h hsize fuel (a.decoder.extend (Wire.encodeFrame payload)).weight
  rw [hmessage] at hserve
  rw [feed] at hfeed
  cases hreceive : receive fuel a message with
  | none =>
      simp only [hreceive, Option.bind_none] at hserve
      simp only [hserve] at hfeed
      cases hfeed
  | some result =>
      obtain ⟨c, replies⟩ := result
      have hsettles := settles_receive hreceive
      have hempty : c.decoder = {} := hsettles.decoder.trans h.decoder
      simp only [hreceive, Option.bind_some, serve_of_empty hempty, List.append_nil] at hserve
      simp only [hserve] at hfeed
      change (if c.connected then some (c, replies)
        else (c.hangUp fuel).map fun a => (a, replies)) = some (b, sent) at hfeed
      split at hfeed
      · obtain ⟨rfl, rfl⟩ := Prod.mk.inj (Option.some.inj hfeed)
        exact ⟨c, hsettles, fun _ => rfl⟩
      · rename_i hgone
        obtain ⟨last, -, hsame⟩ := Option.map_eq_some_iff.1 hfeed
        obtain ⟨-, rfl⟩ := Prod.mk.inj hsame
        exact ⟨c, hsettles, fun hconnected => absurd hconnected hgone⟩

/-- An agent that waited, and has paused its program, waits again. -/
theorem waits_of_receive (h : a.Waits) {fuel : Nat} {message : HostMessage}
    {sent : List DebuggerMessage} (hreceive : a.receive fuel message = some (b, sent))
    (hphase : b.phase = .paused) (hconnected : b.connected = true) (hcapacity : b.capacity = none) :
    b.Waits := by
  refine ⟨(settles_receive hreceive).decoder.trans h.decoder, ?_, hconnected, hcapacity⟩
  rw [hphase]
  exact Phase.noConfusion

end Debug.Agent

namespace Session

open Debug (Agent)
open Machine (State Program)

variable {σ : Type}

/-- A connection with nothing on its way, to an agent that has its program. -/
structure Connection.IsFresh (c : Connection (Agent σ)) : Prop where
  toAgent : c.peer.decoder = {}
  toSession : c.decoder = {}
  inbox : c.mailbox.inbox = []
  busy : c.mailbox.busy = false
  loaded : c.peer.context.stepper.loaded = true
  stops : c.notices.filterMap Notice.cause? = []

/-- Requests and replies correlate in a session that was just started. -/
theorem sound_of_isFresh {ι : Type} {session : Session (Agent σ)} (h : session.connection.IsFresh) :
    Sound session.frontier (System.ofSession session : System σ ι) where
  locked := ⟨none, h.busy, fun i => by simp [System.ofSession]⟩
  prepared _ := trivial
  loaded _ := h.loaded
  pending := by
    refine ⟨.quiet, .start, attended_quiet fun i op => Stage.noConfusion, ?_⟩
    refine .quiet Wire.isTorn_nil (fun _ => rfl) ?_ ?_ h.inbox
    · show Wire.StandsFor _ (session.connection.peer.decoder.extend []) []
      rw [h.toAgent]
      exact Wire.standsFor_empty
    · show Wire.StandsFor _ (session.connection.decoder.extend []) []
      rw [h.toSession]
      exact Wire.standsFor_empty
  accounted := nofun
  stops := h.stops

namespace Connection

/-- What comes of an inquiry that succeeds. -/
theorem of_finish?_ok {α : Type} {c c' : Connection (Agent σ)} {q : Inquiry α} {answer : α}
    (h : c.finish? q = some (c', .ok answer)) :
    ∃ mailbox reply, c.mailbox.take = (mailbox, .reply reply) ∧ q.interpret reply = .ok answer ∧
      c' = { c with
        mailbox := mailbox.release
        notices := c.notices ++ noticesOf q (.ok answer) } := by
  rw [finish?, takeReply?] at h
  rcases htake : c.mailbox.take with ⟨mailbox, pickup⟩
  rw [htake] at h
  cases pickup with
  | wait => cases h
  | closed => cases (Prod.mk.inj (Option.some.inj h)).2
  | reply reply =>
      obtain ⟨hsame, hanswer⟩ := Prod.mk.inj (Option.some.inj h)
      have hinterpret : q.interpret reply = .ok answer := hanswer
      refine ⟨mailbox, reply, rfl, hinterpret, ?_⟩
      rw [← hsame, ← hinterpret]
      rfl

theorem of_interpret_loadProgram {path program : String} {reply : DebuggerMessage}
    (h : (loadProgram path).interpret reply = .ok program) : reply = .programLoaded program := by
  cases reply with
  | programLoaded other =>
      obtain rfl := Except.ok.inj h
      rfl
  | _ => cases h

/-- That a connection has ended is all that is noted of it. -/
theorem markEnded_eq (c : Connection (Agent σ)) :
    c.markEnded.peer = c.peer ∧ c.markEnded.decoder = c.decoder ∧
      c.markEnded.mailbox.inbox = c.mailbox.inbox ∧
      c.markEnded.notices.filterMap Notice.cause? = c.notices.filterMap Notice.cause? := by
  unfold markEnded
  split
  · exact ⟨rfl, rfl, rfl, rfl⟩
  · refine ⟨rfl, rfl, rfl, ?_⟩
    show (c.notices ++ [Notice.ended]).filterMap _ = _
    rw [List.filterMap_append]
    exact List.append_nil _

/-! ## The exchange of the handshake -/

variable [Engine σ]

/-- A session has the greeting of an agent that was just started. -/
theorem accept_start (engine : σ) :
    accept (Agent.start engine none).1 (bytesOf (Agent.start engine none).2) =
      { peer := (Agent.start engine none).1, mailbox := { inbox := [.connect] } } := by
  have hlength : DebuggerMessage.connect.encode.length < UInt64.size := by decide +kernel
  exact absorb_eq (c := { peer := (Agent.start engine none).1 }) (Agent.waits_start engine) rfl rfl
    (takeAll_bytesOf trivial hlength)

/-- Asking for the log changes nothing that a session sees. -/
theorem send_startDebugLogging {c : Connection (Agent σ)} (h : c.IsReady) (fuel : Nat) :
    c.send fuel .startDebugLogging = some c := by
  have hlength : HostMessage.startDebugLogging.encode.length < UInt64.size := by decide +kernel
  have hfeed : c.peer.feed fuel HostMessage.startDebugLogging.encode = some (c.peer, []) :=
    Agent.feed_frame h.peer (Wire.length_lt_of_encodeFrame hlength)
      (HostMessage.decode?_payload (m := .startDebugLogging) trivial) rfl h.peer
  have hreceive : Peer.receive fuel c.peer HostMessage.startDebugLogging.encode =
      some (c.peer, bytesOf []) :=
    congrArg (Option.map fun served => (served.1, bytesOf served.2)) hfeed
  have hopen : c.mailbox.closed = false := by rw [h.mailbox]
  have habsorb : c.absorb [] = { c with mailbox := c.mailbox.deliver [] } :=
    absorb_eq h.peer h.decoder hopen fun limit => Wire.takeAll_empty (limit + 1)
  rw [Mailbox.deliver, List.append_nil] at habsorb
  rw [send, hreceive]
  exact congrArg some habsorb

/-- What comes in does not change who sent it. -/
theorem absorb_peer (c : Connection (Agent σ)) (bytes : List UInt8) :
    (c.absorb bytes).peer = c.peer := by
  unfold absorb
  split
  · rfl
  · dsimp only
    split
    · exact (markEnded_eq _).1
    · rfl

/-- What a session takes whose decoder is empty: the replies, and perhaps the end. -/
theorem absorb_of_replies {c : Connection (Agent σ)} (hdecoder : c.decoder = {})
    (hclosed : c.mailbox.closed = false) {bytes : List UInt8} {replies : List DebuggerMessage}
    (hreplies : ∀ limit, Wire.takeAll (Decoder.nextMessage DebuggerMessage.decode?) (limit + 1)
      ⟨bytes, none⟩ = ({}, replies)) :
    (c.absorb bytes).decoder = {} ∧
      (c.absorb bytes).mailbox.inbox = c.mailbox.inbox ++ replies ∧
      (c.absorb bytes).notices.filterMap Notice.cause? = c.notices.filterMap Notice.cause? := by
  have hextended : c.decoder.extend bytes = ⟨bytes, none⟩ := by
    rw [hdecoder]
    rfl
  unfold absorb
  simp only [hclosed, hextended, hreplies, Bool.false_eq_true, if_false]
  split
  · obtain ⟨-, hdecoder, hinbox, hnotices⟩ :=
      markEnded_eq { c with decoder := {}, mailbox := c.mailbox.deliver replies }
    exact ⟨hdecoder, hinbox, hnotices⟩
  · exact ⟨rfl, rfl, rfl⟩

/-- Whether the message that names the program and the agent's answer to it have lengths of 64 bits,
and the answer fits its record. -/
structure LoadFits (fuel : Nat) (a : Agent σ) (path : String) : Prop where
  message : (HostMessage.loadProgram path).encode.length < UInt64.size
  reply : ∀ b sent, a.feed fuel (HostMessage.loadProgram path).encode = some (b, sent) →
    ∀ reply ∈ sent, reply.Fits ∧ reply.encode.length < UInt64.size

/-- An agent that does not come to rest over a message gives no answer to it. -/
theorem ask_of_feed_eq_none {α : Type} {c : Connection (Agent σ)} (h : c.IsReady) {fuel : Nat}
    {q : Inquiry α} (hfeed : c.peer.feed fuel q.message.encode = none) : c.ask fuel q = none := by
  have hclaim : c.mailbox.claim q.waitsIdle = ({ busy := true }, .granted) := by
    rw [h.mailbox]
    rfl
  have hreceive : Peer.receive fuel c.peer q.message.encode = none :=
    congrArg (Option.map fun served => (served.1, bytesOf served.2)) hfeed
  have hbegin : c.begin? fuel q = none := by
    rw [begin?, hclaim]
    simp only [send, hreceive]
    rfl
  rw [ask, hbegin]

/-- Where the program is loaded, nothing is left behind. -/
theorem isFresh_of_ask {c c' : Connection (Agent σ)} (h : c.IsReady)
    (hstops : c.notices.filterMap Notice.cause? = []) {fuel : Nat} {path program : String}
    (hfits : LoadFits fuel c.peer path)
    (hask : c.ask fuel (loadProgram path) = some (c', .ok program)) : c'.IsFresh := by
  have hsize := Wire.length_lt_of_encodeFrame hfits.message
  have hdecode := HostMessage.decode?_payload (m := .loadProgram path) trivial
  cases hfeed : c.peer.feed fuel (HostMessage.loadProgram path).encode with
  | none =>
      rw [ask_of_feed_eq_none (q := loadProgram path) h hfeed] at hask
      cases hask
  | some result =>
      obtain ⟨agent, sent⟩ := result
      have hbegin := begin?_of_isReady (q := loadProgram path) h hfeed
      rw [ask_eq_begin_finish hbegin] at hask
      obtain ⟨mailbox, reply, htake, hinterpret, rfl⟩ := of_finish?_ok hask
      obtain ⟨hfirst, -, -⟩ := Mailbox.of_take_reply htake
      obtain ⟨b, hsettles, hsame⟩ := Agent.feed_frame_inv h.peer hsize hdecode hfeed
      let asked : Connection (Agent σ) := { c with peer := agent, mailbox := { busy := true } }
      have hpeer : (asked.absorb (bytesOf sent)).peer = agent := absorb_peer asked _
      have hopen : asked.mailbox.closed = false := rfl
      have hreaction := hsettles.reaction
      cases hreaction with
      | silent =>
          obtain ⟨-, hinbox, -⟩ := absorb_of_replies (c := asked) h.decoder hopen
            fun limit => Wire.takeAll_empty (limit + 1)
          cases hinbox.symm.trans hfirst
      | replied hkind hconnected =>
          rename_i answer
          obtain rfl := hsame hconnected
          obtain ⟨hanswer, hlength⟩ :=
            hfits.reply agent [answer] hfeed answer (List.mem_singleton.2 rfl)
          obtain ⟨hdecoder, hinbox, hnotices⟩ := absorb_of_replies (c := asked) h.decoder hopen
            (takeAll_bytesOf hanswer hlength)
          obtain ⟨rfl, hrest⟩ := List.cons.inj (hinbox.symm.trans hfirst)
          obtain rfl := of_interpret_loadProgram hinterpret
          refine ⟨?_, hdecoder, hrest.symm, rfl, ?_, ?_⟩
          · show (asked.absorb _).peer.decoder = {}
            rw [hpeer]
            exact hsettles.decoder.trans h.peer.decoder
          · show (asked.absorb _).peer.context.stepper.loaded = true
            rw [hpeer]
            exact (hsettles.first program (List.mem_singleton.2 rfl)).2
          · show ((asked.absorb _).notices ++ []).filterMap _ = []
            rw [List.append_nil, hnotices]
            exact hstops

/-- With or without the log, a session whose agent has greeted asks for its program. -/
theorem handshake_of_greeted (engine : σ) (fuel : Nat) (options : Options) :
    handshake fuel (accept (Agent.start engine none).1 (bytesOf (Agent.start engine none).2))
        options =
      ask fuel { peer := (Agent.start engine none).1 }
        (loadProgram (Path.normalize options.workspace options.program)) := by
  have hgreeting : greeting
      (accept (Agent.start engine none).1 (bytesOf (Agent.start engine none).2)) =
        some ({ peer := (Agent.start engine none).1 }, .ok ()) := by
    rw [accept_start]
    rfl
  rw [handshake, hgreeting]
  cases options.trace with
  | false => rfl
  | true =>
      simp only [if_true, send_startDebugLogging (isReady_start engine)]
      rfl

/-- A session that was started has asked for its program, and tells its owner that it is loaded. -/
theorem of_start {engine : σ} {fuel : Nat} {options : Options}
    {mapperFor : String → String → Mapper} {session : Session (Agent σ)}
    (h : start fuel (accept (Agent.start engine none).1 (bytesOf (Agent.start engine none).2))
      options mapperFor = some (.ok session)) :
    ∃ c path directory,
      ask fuel { peer := (Agent.start engine none).1 }
        (loadProgram (Path.normalize options.workspace options.program)) = some (c, .ok path) ∧
      session.connection = c.raise [.loaded (Path.qualify options.workspace path)] ∧
      session.frontier = ⟨options.workspace, mapperFor directory options.workspace⟩ := by
  rw [start, handshake_of_greeted] at h
  rcases hask : ask fuel { peer := (Agent.start engine none).1 }
      (loadProgram (Path.normalize options.workspace options.program)) with
    _ | ⟨c, failure | path⟩
  · rw [hask] at h
    cases h
  · rw [hask] at h
    obtain ⟨closed, -, hsame⟩ := Option.map_eq_some_iff.1 h
    cases hsame
  · rw [hask] at h
    obtain rfl := Except.ok.inj (Option.some.inj h)
    exact ⟨c, path, _, rfl, rfl, rfl⟩

/-- A session that was started has nothing on its way. -/
theorem isFresh_of_start {engine : σ} {fuel : Nat} {options : Options}
    {mapperFor : String → String → Mapper} {session : Session (Agent σ)}
    (hfits : LoadFits fuel (Agent.start engine none).1
      (Path.normalize options.workspace options.program))
    (h : start fuel (accept (Agent.start engine none).1 (bytesOf (Agent.start engine none).2))
      options mapperFor = some (.ok session)) :
    session.connection.IsFresh ∧
      ∃ directory, session.frontier.mapper = mapperFor directory options.workspace := by
  obtain ⟨c, path, directory, hask, hconnection, hfrontier⟩ := of_start h
  obtain ⟨htoAgent, htoSession, hinbox, hbusy, hloaded, hstops⟩ :=
    isFresh_of_ask (isReady_start engine) rfl hfits hask
  rw [hconnection, hfrontier]
  refine ⟨⟨htoAgent, htoSession, hinbox, hbusy, hloaded, ?_⟩, directory, rfl⟩
  show (c.notices ++ [Notice.loaded _]).filterMap _ = []
  rw [List.filterMap_append, hstops]
  rfl

/-- The agent of a session that has asked is the one that answered. -/
theorem ask_peer {α : Type} {c c' : Connection (Agent σ)} (h : c.IsReady) {fuel : Nat}
    {q : Inquiry α} {agent : Agent σ} {sent : List DebuggerMessage}
    (hfeed : c.peer.feed fuel q.message.encode = some (agent, sent)) {answer : α}
    (hask : c.ask fuel q = some (c', .ok answer)) : c'.peer = agent := by
  rw [ask_eq_begin_finish (begin?_of_isReady h hfeed)] at hask
  obtain ⟨mailbox, reply, -, -, rfl⟩ := of_finish?_ok hask
  exact absorb_peer _ _

/-- A session is started by an agent that announces its program. -/
theorem exists_start {engine : σ} {fuel : Nat} (options : Options)
    (mapperFor : String → String → Mapper) {agent : Agent σ} {path : String}
    (hfits : LoadFits fuel (Agent.start engine none).1
      (Path.normalize options.workspace options.program))
    (hreceive : (Agent.start engine none).1.receive fuel
      (.loadProgram (Path.normalize options.workspace options.program)) =
        some (agent, [.programLoaded path])) (hagent : agent.Waits) :
    ∃ session,
      start fuel (accept (Agent.start engine none).1 (bytesOf (Agent.start engine none).2)) options
        mapperFor = some (.ok session) ∧
      session.connection.IsReady ∧ session.connection.peer = agent := by
  let q := loadProgram (Path.normalize options.workspace options.program)
  have hfeed : (Agent.start engine none).1.feed fuel q.message.encode =
      some (agent, [.programLoaded path]) :=
    Agent.feed_frame (Agent.waits_start engine) (Wire.length_lt_of_encodeFrame hfits.message)
      (HostMessage.decode?_payload (m := q.message) trivial) hreceive hagent
  obtain ⟨hreply, hlength⟩ := hfits.reply agent _ hfeed _ (List.mem_singleton.2 rfl)
  obtain ⟨c, hask, hready⟩ :=
    ask_answered (isReady_start engine) (q := q) hfeed hagent hreply hlength fun _ => rfl
  have hpeer := ask_peer (isReady_start engine) hfeed hask
  rw [start, handshake_of_greeted, hask]
  exact ⟨_, rfl, ⟨hready.peer, hready.decoder, hready.mailbox⟩, hpeer⟩

end Connection

/-! ## An exchange that nothing disturbs -/

section

variable {σ ι : Type}

/-- A session and its agent with nothing to do. -/
structure AtRest (s : System σ ι) : Prop where
  agent : s.agent.Waits
  up : s.up = []
  down : s.down = []
  writable : s.writable = true
  decoder : s.decoder = {}
  mailbox : s.mailbox = {}

theorem atRest_ofSession {session : Session (Agent σ)} (h : session.connection.IsReady) :
    AtRest (System.ofSession session : System σ ι) :=
  ⟨h.peer, rfl, rfl, rfl, h.decoder, h.mailbox⟩

variable {f : Frontier} {op : Operation} {q : Inquiry op.Answer} {reply : DebuggerMessage}

/-- What an exchange adds to the history is as long as its messages are. -/
theorem fits_exchange (hq : op.inquiry? f = .ok q) (hsize : q.message.encode.length < UInt64.size)
    (hfits : reply.Fits) (hlength : reply.encode.length < UInt64.size) (i : ι)
    (message : HostMessage) (outcome : Option (Except Failure op.Answer)) :
    ∀ entry ∈ [.asked i op, .served message [reply], .took i op reply, .returned i op outcome],
      Entry.Fits f entry := by
  have hasked : Entry.Fits f (.asked i op) := by
    intro q' hq'
    obtain rfl := Except.ok.inj (hq'.symm.trans hq)
    exact hsize
  have hserved : (Entry.served message [reply] : Entry ι).Fits f := by
    intro answer hanswer
    obtain rfl := List.mem_singleton.1 hanswer
    exact ⟨hfits, hlength⟩
  simp only [List.forall_mem_cons]
  exact ⟨hasked, hserved, trivial, trivial, List.forall_mem_nil _⟩

variable [DecidableEq ι] [Engine σ]

theorem Reaches.refl {s : System σ ι} : Reaches f s s :=
  Relation.ReflTransGen.refl

theorem Reaches.step {s t u : System σ ι} {actor : Actor ι}
    (h : Reaches f s t) (hstep : Step f actor t u) : Reaches f s u :=
  Relation.ReflTransGen.tail h ⟨actor, hstep⟩

variable {s : System σ ι} {i : ι}

/-- A caller claims the session and writes its message. -/
theorem reaches_asked (hidle : s.stages i = .idle) (hwritable : s.writable = true)
    (hmailbox : s.mailbox = {}) (hq : op.inquiry? f = .ok q) :
    Reaches f s { s with
      up := s.up ++ q.message.encode
      mailbox := { busy := true }
      stages := Function.update s.stages i (.waiting op)
      history := s.history ++ [.asked i op] } := by
  have hthere (stages : ι → Stage) (stage : Stage) : Function.update stages i stage i = stage :=
    Function.update_self i stage stages
  have hclaim : s.mailbox.claim q.waitsIdle = ({ busy := true }, .granted) := by
    rw [hmailbox]
    rfl
  have hissued := Reaches.refl.step (.caller (.issue (f := f) op hidle))
  have hclaimed := hissued.step (.caller (.claim (hthere _ _) hq hclaim))
  have hsent := hclaimed.step (.caller (.send (hthere _ _) hq hwritable))
  simpa only [System.put, System.log, Function.update_idem] using hsent

/-- The agent reads a message and serves it. -/
theorem reaches_served (hagent : s.agent.Waits) (hup : s.up = q.message.encode)
    (hdown : s.down = []) (hsize : q.message.encode.length < UInt64.size) {message : HostMessage}
    (hdecode : HostMessage.decode? (Text.Utf8.encode q.message.toJson.text) = some message)
    {fuel : Nat} {agent : Agent σ}
    (hreceive : s.agent.receive fuel message = some (agent, [reply]))
    (hconnected : agent.connected = true) :
    Reaches f s { s with
      agent
      up := []
      down := reply.encode
      history := s.history ++ [.served message [reply]] } := by
  have hserving : ¬s.agent.IsGone := by
    rintro (hfinished | hgone)
    · exact hagent.phase hfinished
    · cases hgone.symm.trans hagent.connected
  have hempty : s.agent.decoder.nextMessage HostMessage.decode? = ({}, none) := by
    rw [hagent.decoder]
    exact Wire.nextMessage_empty
  have hrequest : (({} : Decoder).extend q.message.encode).nextMessage HostMessage.decode? =
      ({}, some message) := by
    rw [← hdecode]
    exact Wire.nextMessage_encodeFrame (Wire.length_lt_of_encodeFrame hsize)
  have hsame : ({ s.agent with decoder := {} } : Agent σ) = s.agent := by rw [← hagent.decoder]
  have hserve : ({ s.agent with decoder := {} } : Agent σ).receive fuel message =
      some (agent, [reply]) := by
    rw [hsame]
    exact hreceive
  have hread := Reaches.refl.step (.agent (f := f) (.read hserving hempty
    (hup.trans (List.append_nil _).symm)))
  have hwhole : ([] : List UInt8) = [] ∨
      agent.connected = false ∧ Wire.TornFrom reply.encode [] := .inl rfl
  have hserved := hread.step (.agent (.serve hserving hrequest hserve hwhole))
  simpa only [System.log, hdown, bytesOf_singleton, List.nil_append, List.append_nil, hconnected,
    Bool.and_true] using hserved

/-- The reader delivers a reply. -/
theorem reaches_delivered (hdecoder : s.decoder = {}) (hdown : s.down = reply.encode)
    (hopen : s.mailbox.closed = false) (hfits : reply.Fits)
    (hlength : reply.encode.length < UInt64.size) :
    Reaches f s { s with
      down := []
      decoder := {}
      mailbox := s.mailbox.deliver [reply] } := by
  have hempty : s.decoder.nextMessage DebuggerMessage.decode? = ({}, none) := by
    rw [hdecoder]
    exact Wire.nextMessage_empty
  have hanswer : (({} : Decoder).extend reply.encode).nextMessage DebuggerMessage.decode? =
      ({}, some reply) := by
    rw [← DebuggerMessage.decode?_payload hfits]
    exact Wire.nextMessage_encodeFrame (Wire.length_lt_of_encodeFrame hlength)
  have hread := Reaches.refl.step (.reader (f := f) (.read hopen hempty
    (hdown.trans (List.append_nil _).symm)))
  exact hread.step (.reader (.deliver hopen hanswer))

/-- A caller takes its reply, releases the session and returns. -/
theorem reaches_returned (hwaiting : s.stages i = .waiting op)
    (hmailbox : s.mailbox = { busy := true, inbox := [reply] }) (hq : op.inquiry? f = .ok q) :
    Reaches f s { s with
      mailbox := {}
      notices := s.notices ++ raised q (some (q.interpret reply))
      stages := Function.update s.stages i .idle
      history := s.history ++
        [.took i op reply, .returned i op (some (q.interpret reply))] } := by
  have hthere (stages : ι → Stage) (stage : Stage) : Function.update stages i stage i = stage :=
    Function.update_self i stage stages
  have htake : s.mailbox.take = ({ busy := true }, .reply reply) := by
    rw [hmailbox]
    rfl
  have htook := Reaches.refl.step (.caller (f := f) (.take hwaiting htake))
  have hreleased := htook.step (.caller (.release (hthere _ _)))
  have hreturned := hreleased.step (.caller (.conclude (hthere _ _) hq))
  simpa only [System.put, System.log, System.finish, Function.update_idem, List.append_assoc,
    List.cons_append, List.nil_append, Receipt.outcome, Mailbox.release] using hreturned

/-- A caller that nobody disturbs gets what the agent's reply says. -/
theorem AtRest.exchange (h : AtRest s) (i : ι) (op : Operation) {q : Inquiry op.Answer}
    (hidle : s.stages i = .idle) (hq : op.inquiry? f = .ok q)
    (hsize : q.message.encode.length < UInt64.size) {message : HostMessage}
    (hdecode : HostMessage.decode? (Text.Utf8.encode q.message.toJson.text) = some message)
    {fuel : Nat} {agent : Agent σ}
    (hreceive : s.agent.receive fuel message = some (agent, [reply])) (hagent : agent.Waits)
    (hfits : reply.Fits) (hlength : reply.encode.length < UInt64.size) :
    ∃ t, Reaches f s t ∧ AtRest t ∧ t.agent = agent ∧ t.stages = s.stages ∧
      t.history = s.history ++ ([.asked i op, .served message [reply], .took i op reply,
        .returned i op (some (q.interpret reply))] : List (Entry ι)) ∧
      t.notices = s.notices ++ raised q (some (q.interpret reply)) ∧
      ((∀ entry ∈ s.history, entry.Fits f) → ∀ entry ∈ t.history, entry.Fits f) := by
  have hasked := reaches_asked hidle h.writable h.mailbox hq
  have hserved := reaches_served (f := f) (s := { s with
      up := s.up ++ q.message.encode
      mailbox := { busy := true }
      stages := Function.update s.stages i (.waiting op)
      history := s.history ++ [.asked i op] })
    h.agent (by rw [h.up, List.nil_append]) h.down hsize hdecode hreceive hagent.connected
  have hdelivered := reaches_delivered (f := f) (s := { s with
      agent
      up := []
      down := reply.encode
      mailbox := { busy := true }
      stages := Function.update s.stages i (.waiting op)
      history := s.history ++ [.asked i op] ++ [.served message [reply]] })
    h.decoder rfl rfl hfits hlength
  have hreturned := reaches_returned (f := f) (s := { s with
      agent
      up := []
      down := []
      decoder := {}
      mailbox := { busy := true, inbox := [reply] }
      stages := Function.update s.stages i (.waiting op)
      history := s.history ++ [.asked i op] ++ [.served message [reply]] })
    (Function.update_self i _ _) rfl hq
  have hstages : Function.update (Function.update s.stages i (.waiting op)) i .idle = s.stages := by
    rw [Function.update_idem, ← hidle, Function.update_eq_self]
  refine ⟨_, ((hasked.trans hserved).trans hdelivered).trans hreturned,
    ⟨hagent, rfl, rfl, h.writable, rfl, rfl⟩, rfl, hstages, ?_, rfl, fun hbefore => ?_⟩
  · simp only [List.append_assoc, List.cons_append, List.nil_append]
  · simp only [List.append_assoc, List.cons_append, List.nil_append]
    exact List.forall_mem_append.2
      ⟨hbefore, fits_exchange hq hsize hfits hlength i message _⟩

end

/-! ## From the handshake on -/

/-- Requests and replies correlate: whatever callers ask a session for that was started with an
agent, and in whatever order they, the agent, the reader of the session and the streams of bytes
between them take their steps. What is written has lengths of 64 bits, and what the agent writes
fits its records. -/
theorem requests_and_replies_correlate {σ ι : Type} [Engine σ] [DecidableEq ι] {engine : σ}
    {fuel : Nat} {options : Options} {session : Session (Agent σ)}
    (hstart : start fuel
      (Connection.accept (Agent.start engine none).1 (bytesOf (Agent.start engine none).2)) options
      (fun _ _ => .identity) = some (.ok session))
    (hload : Connection.LoadFits fuel (Agent.start engine none).1
      (Path.normalize options.workspace options.program))
    {t : System σ ι} (hreaches : Reaches session.frontier (System.ofSession session) t)
    (hfits : ∀ entry ∈ t.history, entry.Fits session.frontier) :
    Correlates session.frontier t := by
  obtain ⟨hfresh, directory, hmapper⟩ := Connection.isFresh_of_start hload hstart
  have hsound : Sound session.frontier (System.ofSession session : System σ ι) :=
    sound_of_isFresh hfresh
  exact (hsound.reaches hmapper hreaches hfits).correlates

/-- One caller lets a program of two statements go to the second one, and another caller removes a
breakpoint that does not exist. -/
theorem requests_and_replies_correlate_step_and_removal :
    ∃ (program : Program) (session : Session (Agent State)) (t : System State Bool),
      Program.ofSource "main.mod" "print \"a\"\nprint \"b\"\n" = .ok program ∧
      Connection.LoadFits 10 (Agent.start (State.initial (fun _ => none) program) none).1
        (Path.normalize "/work" "/work/main.mod") ∧
      start 10
        (Connection.accept (Agent.start (State.initial (fun _ => none) program) none).1
          (bytesOf (Agent.start (State.initial (fun _ => none) program) none).2))
        ⟨"/work/main.mod", "/work", true⟩ (fun _ _ => .identity) = some (.ok session) ∧
      Reaches session.frontier (System.ofSession session) t ∧
      t.history =
        [.asked false (.resume .next), .served .next [.stopOnStep],
          .took false (.resume .next) .stopOnStep,
          .returned false (.resume .next) (some (.ok .step)),
          .asked true (.removeBreakpoint 7),
          .served (.removeBreakpoint 7) [.breakpointRemoved 7 false],
          .took true (.removeBreakpoint 7) (.breakpointRemoved 7 false),
          .returned true (.removeBreakpoint 7) (some (.ok false))] ∧
      (∀ entry ∈ t.history, entry.Fits session.frontier) ∧ Correlates session.frontier t := by
  have hpath : Path.normalize "/work" "/work/main.mod" = "main.mod" := by decide +kernel
  have hcomputed :
      ((Program.ofSource "main.mod" "print \"a\"\nprint \"b\"\n").toOption.bind fun program =>
        ((Agent.start (State.initial (fun _ => none) program) none).1.receive 10
            (.loadProgram "main.mod")).bind fun a =>
          (a.1.receive 10 .next).bind fun b =>
            (b.1.receive 10 (.removeBreakpoint 7)).map fun c =>
              ([(a.1.phase, a.1.connected, a.1.capacity), (b.1.phase, b.1.connected, b.1.capacity),
                  (c.1.phase, c.1.connected, c.1.capacity)],
                [a.2, b.2, c.2])) =
      some ([(.paused, true, none), (.paused, true, none), (.paused, true, none)],
        [[.programLoaded "main.mod"], [.stopOnStep], [.breakpointRemoved 7 false]]) := by cbv
  obtain ⟨program, hsource, hprogram⟩ := Program.exists_of_ofSource hcomputed
  obtain ⟨⟨a, loaded⟩, hload, hbehind⟩ := Option.bind_eq_some_iff.1 hprogram
  obtain ⟨⟨b, stopped⟩, hnext, hbehind⟩ := Option.bind_eq_some_iff.1 hbehind
  obtain ⟨⟨c, removed⟩, hremove, hvalues⟩ := Option.map_eq_some_iff.1 hbehind
  simp only [Prod.mk.injEq, List.cons.injEq, and_true] at hvalues
  obtain ⟨⟨ha, hb, hc⟩, rfl, rfl, rfl⟩ := hvalues
  have hstarts := Agent.waits_start (State.initial (fun _ => none) program)
  have haWaits := Agent.waits_of_receive hstarts hload ha.1 ha.2.1 ha.2.2
  have hbWaits := Agent.waits_of_receive haWaits hnext hb.1 hb.2.1 hb.2.2
  have hcWaits := Agent.waits_of_receive hbWaits hremove hc.1 hc.2.1 hc.2.2
  have hfits : Connection.LoadFits 10 (Agent.start (State.initial (fun _ => none) program) none).1
      (Path.normalize "/work" "/work/main.mod") := by
    rw [hpath]
    have hlength : (HostMessage.loadProgram "main.mod").encode.length < UInt64.size := by
      decide +kernel
    refine ⟨hlength, fun d sent hfeed reply hreply => ?_⟩
    have hserved := Agent.feed_frame hstarts (Wire.length_lt_of_encodeFrame hlength)
      (HostMessage.decode?_payload (m := .loadProgram "main.mod") trivial) hload haWaits
    obtain ⟨-, rfl⟩ := Prod.mk.inj (Option.some.inj (hserved.symm.trans hfeed))
    obtain rfl := List.mem_singleton.1 hreply
    exact ⟨trivial, by decide +kernel⟩
  obtain ⟨session, hstart, hready, hpeer⟩ := Connection.exists_start
    ⟨"/work/main.mod", "/work", true⟩ (fun _ _ => .identity) hfits
    (by rw [hpath]; exact hload) haWaits
  have hrests : AtRest (System.ofSession session : System State Bool) := atRest_ofSession hready
  have hnext' : (System.ofSession session : System State Bool).agent.receive 10 .next =
      some (b, [.stopOnStep]) := by
    rw [show (System.ofSession session : System State Bool).agent = a from hpeer]
    exact hnext
  obtain ⟨s, hstepped, hrest, hagent, hstages, hhistory, -, hfitting⟩ :=
    hrests.exchange (f := session.frontier) false (.resume .next) rfl rfl
      (by decide +kernel) (HostMessage.decode?_payload trivial) hnext'
      hbWaits trivial (by decide +kernel)
  have hremove' : s.agent.receive 10 (.removeBreakpoint 7) =
      some (c, [.breakpointRemoved 7 false]) := by
    rw [hagent]
    exact hremove
  obtain ⟨t, hremoved, -, -, -, hhistory', -, hfitting'⟩ :=
    hrest.exchange (f := session.frontier) true (.removeBreakpoint 7)
      (by rw [hstages]; rfl) rfl
      (by decide +kernel) (HostMessage.decode?_payload ⟨by decide, by decide⟩)
      hremove' hcWaits ⟨by decide, by decide⟩ (by decide +kernel)
  have hreaches := hstepped.trans hremoved
  rw [hhistory] at hhistory'
  have hwritten : ∀ entry ∈ t.history, entry.Fits session.frontier :=
    hfitting' (hfitting (List.forall_mem_nil _))
  exact ⟨program, session, t, hsource, hfits, hstart, hreaches, hhistory', hwritten,
    requests_and_replies_correlate hstart hfits hreaches hwritten⟩

end Session

end ScriptDebugger
