import Mathlib.Logic.Function.Basic
import Mathlib.Logic.Relation
import ScriptDebugger.Proofs.Session.Operations
import ScriptDebugger.Proofs.Wire.Streams
import ScriptDebugger.Session.Start
/-!
# A session and its agent

Any number of callers share a session, whose reader takes what the agent sends, and the agent serves
what the session sends. Between them are two streams of bytes. Each of them acts in small steps, and
the steps may come in any order: a caller claims the session, writes its message, takes a reply,
releases the session and returns, and everybody else may act in between.

A stream keeps the order of its bytes and hands them out in any pieces. It may break at any time.
Then a write may fail, and leave the front part of a frame behind; the agent may find that the front
end is gone, and the reader that the stream has ended. That either side closes its stream is such a
break too.

The history of a run has what was asked, served, taken and returned, in order.

## Main definitions

* `System`, `Step`, `Reaches` — all states of a session with its agent.
* `Orderly` — a history of whole exchanges, one behind the other.
* `Correlates` — what callers may rely on.
-/

namespace ScriptDebugger.Session

open Wire (DebuggerMessage HostMessage Decoder TornFrom)
open Debug (Agent IsReply)

/-! ## Callers -/

/-- What a caller has when it releases the session. -/
inductive Receipt
  /-- Its message could not be written. -/
  | unsent
  /-- The connection has ended, and there is no reply. -/
  | closed
  /-- A reply. -/
  | reply (message : DebuggerMessage)

/-- Where a caller stands. -/
inductive Stage
  /-- Outside of any operation. -/
  | idle
  /-- Before it has claimed the session. -/
  | claiming (op : Operation)
  /-- Before it writes its message. -/
  | sending (op : Operation)
  /-- Before it takes a reply. -/
  | waiting (op : Operation)
  /-- Before it releases the session. -/
  | releasing (op : Operation) (receipt : Receipt)
  /-- Before it returns. -/
  | concluding (op : Operation) (receipt : Receipt)

namespace Stage

/-- How many steps a caller is away from the release of the session, at most. -/
def distance : Stage → Nat
  | .idle | .claiming _ | .concluding _ _ => 0
  | .releasing _ _ => 1
  | .waiting _ => 2
  | .sending _ => 3

/-- Whether a caller is between its claim and its release. -/
def Holds (stage : Stage) : Prop := 0 < stage.distance

@[simp]
theorem not_holds_idle : ¬Stage.idle.Holds := Nat.lt_irrefl 0

@[simp]
theorem not_holds_claiming (op : Operation) : ¬(Stage.claiming op).Holds := Nat.lt_irrefl 0

@[simp]
theorem holds_sending (op : Operation) : (Stage.sending op).Holds := Nat.succ_pos 2

@[simp]
theorem holds_waiting (op : Operation) : (Stage.waiting op).Holds := Nat.succ_pos 1

@[simp]
theorem holds_releasing (op : Operation) (receipt : Receipt) : (Stage.releasing op receipt).Holds :=
  Nat.succ_pos 0

@[simp]
theorem not_holds_concluding (op : Operation) (receipt : Receipt) :
    ¬(Stage.concluding op receipt).Holds := Nat.lt_irrefl 0

end Stage

/-- What an operation returns to its caller; none where its message could not be written. -/
def Receipt.outcome {α : Type} (q : Inquiry α) : Receipt → Option (Except Failure α)
  | .unsent => none
  | .closed => some (.error .closed)
  | .reply message => some (q.interpret message)

/-- The notices that an outcome is worth. -/
def raised {α : Type} (q : Inquiry α) : Option (Except Failure α) → List Notice
  | none => []
  | some outcome => Connection.noticesOf q outcome

/-! ## Histories -/

/-- What happened in a run. -/
inductive Entry (ι : Type)
  /-- A caller wrote the message of an operation. -/
  | asked (i : ι) (op : Operation)
  /-- The agent read a message and sent replies. -/
  | served (message : HostMessage) (sent : List DebuggerMessage)
  /-- A caller took a reply. -/
  | took (i : ι) (op : Operation) (reply : DebuggerMessage)
  /-- An operation returned. -/
  | returned (i : ι) (op : Operation) (outcome : Option (Except Failure op.Answer))

namespace Entry

variable {ι : Type}

/-- Whether a message was written. -/
def isAsked : Entry ι → Bool
  | .asked _ _ => true
  | _ => false

/-- Whether a reply was taken. -/
def isTook : Entry ι → Bool
  | .took _ _ _ => true
  | _ => false

/-- The stop that a successful command returned. -/
def cause? : Entry ι → Option StopCause
  | .returned _ (.resume _) (some (.ok cause)) => some cause
  | _ => none

/-- Whether the messages of an entry have lengths of 64 bits, and those of the agent fit their
records. -/
def Fits (f : Frontier) : Entry ι → Prop
  | .asked _ op => ∀ q, op.inquiry? f = .ok q → q.message.encode.length < UInt64.size
  | .served _ sent => ∀ reply ∈ sent, reply.Fits ∧ reply.encode.length < UInt64.size
  | .took _ _ _ | .returned _ _ _ => True

end Entry

/-- The stop that a notice tells. -/
def Notice.cause? : Notice → Option StopCause
  | .stopped cause => some cause
  | .loaded _ | .ended => none

/-! ## The system -/

/-- A session with its callers and its agent. -/
structure System (σ ι : Type) where
  /-- The agent. -/
  agent : Agent σ
  /-- The bytes on their way to the agent. -/
  up : List UInt8
  /-- The bytes on their way to the session. -/
  down : List UInt8
  /-- Whether the streams are whole. -/
  intact : Bool
  /-- Whether the session can write. -/
  writable : Bool
  /-- What the reader of the session has read. -/
  decoder : Decoder
  /-- What the callers and the reader share. -/
  mailbox : Mailbox
  /-- The notices raised so far. -/
  notices : List Notice
  /-- Where the callers stand. -/
  stages : ι → Stage
  /-- What happened so far. -/
  history : List (Entry ι)

namespace System

variable {σ ι : Type}

/-- A session whose callers have not asked for anything. -/
def ofSession (session : Session (Agent σ)) : System σ ι where
  agent := session.connection.peer
  up := []
  down := []
  intact := true
  writable := true
  decoder := session.connection.decoder
  mailbox := session.connection.mailbox
  notices := session.connection.notices
  stages _ := .idle
  history := []

/-- Adds to the history. -/
def log (s : System σ ι) (entry : Entry ι) : System σ ι :=
  { s with history := s.history ++ [entry] }

variable [DecidableEq ι]

/-- Moves a caller. -/
def put (s : System σ ι) (i : ι) (stage : Stage) : System σ ι :=
  { s with stages := Function.update s.stages i stage }

/-- Ends the operation of a caller. -/
def finish (s : System σ ι) (i : ι) (op : Operation)
    (outcome : Option (Except Failure op.Answer)) : System σ ι :=
  (s.log (.returned i op outcome)).put i .idle

end System

/-! ## Steps -/

section

variable {σ ι : Type} [DecidableEq ι]

/-- A step of a caller. -/
inductive CallerStep (f : Frontier) (i : ι) (s : System σ ι) : System σ ι → Prop
  /-- It begins an operation. -/
  | issue (op : Operation) (hstage : s.stages i = .idle) :
      CallerStep f i s (s.put i (.claiming op))
  /-- Its text is no value. -/
  | refuse {op : Operation} {failure : Failure} (hstage : s.stages i = .claiming op)
      (hq : op.inquiry? f = .error failure) :
      CallerStep f i s (s.finish i op (some (.error failure)))
  /-- It claims the session. -/
  | claim {op : Operation} {q : Inquiry op.Answer} {mailbox : Mailbox}
      (hstage : s.stages i = .claiming op) (hq : op.inquiry? f = .ok q)
      (hclaim : s.mailbox.claim q.waitsIdle = (mailbox, .granted)) :
      CallerStep f i s ({ s with mailbox }.put i (.sending op))
  /-- Another request is on its way. -/
  | turnAway {op : Operation} {q : Inquiry op.Answer} {mailbox : Mailbox}
      (hstage : s.stages i = .claiming op) (hq : op.inquiry? f = .ok q)
      (hclaim : s.mailbox.claim q.waitsIdle = (mailbox, .busy)) :
      CallerStep f i s (s.finish i op (some (.error .busy)))
  /-- The connection has ended. -/
  | shutOut {op : Operation} {q : Inquiry op.Answer} {mailbox : Mailbox}
      (hstage : s.stages i = .claiming op) (hq : op.inquiry? f = .ok q)
      (hclaim : s.mailbox.claim q.waitsIdle = (mailbox, .closed)) :
      CallerStep f i s (s.finish i op (some (.error .closed)))
  /-- It writes its message. -/
  | send {op : Operation} {q : Inquiry op.Answer} (hstage : s.stages i = .sending op)
      (hq : op.inquiry? f = .ok q) (hwritable : s.writable = true) :
      CallerStep f i s
        (({ s with up := s.up ++ q.message.encode }.log (.asked i op)).put i (.waiting op))
  /-- It fails to write its message, and nothing is written from then on. -/
  | breakOff {op : Operation} {q : Inquiry op.Answer} {torn : List UInt8}
      (hstage : s.stages i = .sending op) (hq : op.inquiry? f = .ok q)
      (htorn : torn = [] ∨ s.writable = true ∧ TornFrom q.message.encode torn) :
      CallerStep f i s
        ({ s with up := s.up ++ torn, intact := false, writable := false }.put i
          (.releasing op .unsent))
  /-- It takes a reply. -/
  | take {op : Operation} {mailbox : Mailbox} {reply : DebuggerMessage}
      (hstage : s.stages i = .waiting op) (htake : s.mailbox.take = (mailbox, .reply reply)) :
      CallerStep f i s
        (({ s with mailbox }.log (.took i op reply)).put i (.releasing op (.reply reply)))
  /-- There is no reply, and the connection has ended. -/
  | giveUp {op : Operation} {mailbox : Mailbox} (hstage : s.stages i = .waiting op)
      (htake : s.mailbox.take = (mailbox, .closed)) :
      CallerStep f i s (s.put i (.releasing op .closed))
  /-- It releases the session. -/
  | release {op : Operation} {receipt : Receipt} (hstage : s.stages i = .releasing op receipt) :
      CallerStep f i s
        ({ s with mailbox := s.mailbox.release }.put i (.concluding op receipt))
  /-- It returns, and raises the notice that its answer is worth. -/
  | conclude {op : Operation} {receipt : Receipt} {q : Inquiry op.Answer}
      (hstage : s.stages i = .concluding op receipt) (hq : op.inquiry? f = .ok q) :
      CallerStep f i s
        ({ s with notices := s.notices ++ raised q (receipt.outcome q) }.finish i op
          (receipt.outcome q))

variable [Engine σ]

/-- A step of the agent. -/
inductive AgentStep (s : System σ ι) : System σ ι → Prop
  /-- It reads some bytes, where it has no whole message. -/
  | read {decoder : Decoder} {bytes rest : List UInt8} (hserving : ¬s.agent.IsGone)
      (hnext : s.agent.decoder.nextMessage HostMessage.decode? = (decoder, none))
      (hup : s.up = bytes ++ rest) :
      AgentStep s { s with agent := { s.agent with decoder := decoder.extend bytes }, up := rest }
  /-- It serves a message. If it cannot write the reply, the streams are broken. -/
  | serve {decoder : Decoder} {message : HostMessage} {fuel : Nat} {agent : Agent σ}
      {sent : List DebuggerMessage} {unsent : DebuggerMessage} {torn : List UInt8}
      (hserving : ¬s.agent.IsGone)
      (hnext : s.agent.decoder.nextMessage HostMessage.decode? = (decoder, some message))
      (hreceive : { s.agent with decoder }.receive fuel message = some (agent, sent))
      (htorn : torn = [] ∨ agent.connected = false ∧ TornFrom unsent.encode torn) :
      AgentStep s
        ({ s with
          agent
          down := s.down ++ bytesOf sent ++ torn
          intact := s.intact && agent.connected }.log (.served message sent))
  /-- It finds that the front end is gone, and lets the program run to its end. -/
  | hangUp {decoder : Decoder} {fuel : Nat} {agent : Agent σ}
      (hgone : s.agent.connected = false ∨ s.intact = false ∧
        s.agent.decoder.nextMessage HostMessage.decode? = (decoder, none))
      (hhangUp : s.agent.hangUp fuel = some agent) : AgentStep s { s with agent }

/-- A step of the reader, as long as the connection has not ended. -/
inductive ReaderStep (s : System σ ι) : System σ ι → Prop
  /-- It reads some bytes, where it has no whole message. -/
  | read {decoder : Decoder} {bytes rest : List UInt8} (hopen : s.mailbox.closed = false)
      (hnext : s.decoder.nextMessage DebuggerMessage.decode? = (decoder, none))
      (hdown : s.down = bytes ++ rest) :
      ReaderStep s { s with decoder := decoder.extend bytes, down := rest }
  /-- It delivers a message. -/
  | deliver {decoder : Decoder} {message : DebuggerMessage} (hopen : s.mailbox.closed = false)
      (hnext : s.decoder.nextMessage DebuggerMessage.decode? = (decoder, some message)) :
      ReaderStep s { s with decoder, mailbox := s.mailbox.deliver [message] }
  /-- It finds the end of the stream: the streams are broken, or the program has ended and all that
  was sent is read. -/
  | finish {decoder : Decoder} (hopen : s.mailbox.closed = false)
      (hnext : s.decoder.nextMessage DebuggerMessage.decode? = (decoder, none))
      (hend : s.intact = false ∨ s.agent.phase = .finished ∧ s.down = []) :
      ReaderStep s { s with mailbox := s.mailbox.close, notices := s.notices ++ [.ended] }

/-- Who takes a step. -/
inductive Actor (ι : Type)
  | caller (i : ι)
  | agent
  | reader
  | link

/-- A step of somebody. -/
inductive Step (f : Frontier) : Actor ι → System σ ι → System σ ι → Prop
  | caller {i : ι} {s t : System σ ι} (h : CallerStep f i s t) : Step f (.caller i) s t
  | agent {s t : System σ ι} (h : AgentStep s t) : Step f .agent s t
  | reader {s t : System σ ι} (h : ReaderStep s t) : Step f .reader s t
  /-- The streams break. After any number of further messages, writing fails for the agent. -/
  | cut {s : System σ ι} (capacity : Option Nat) :
      Step f .link s { s with intact := false, agent := { s.agent with capacity } }

/-- Steps lead from one state to another. -/
def Reaches (f : Frontier) : System σ ι → System σ ι → Prop :=
  Relation.ReflTransGen fun s t => ∃ actor, Step f actor s t

end

/-! ## What a step does to the callers -/

section

variable {σ ι : Type} [DecidableEq ι] {f : Frontier} {s u : System σ ι} {i : ι}

/-- A caller that does not wait for its turn, and finds the session claimed, is turned away, and
told that the connection has ended if it has. -/
theorem callerStep_iff_of_busy {op : Operation} {q : Inquiry op.Answer}
    (hstage : s.stages i = .claiming op) (hq : op.inquiry? f = .ok q) (hwaits : q.waitsIdle = false)
    (hbusy : s.mailbox.busy = true) (u : System σ ι) :
    CallerStep f i s u ↔
      u = s.finish i op (some (.error (if s.mailbox.closed then .closed else .busy))) := by
  have hclaim : s.mailbox.claim q.waitsIdle =
      (s.mailbox, if s.mailbox.closed then .closed else .busy) := by
    cases hclosed : s.mailbox.closed <;> simp [Mailbox.claim, hwaits, hbusy, hclosed]
  constructor
  · intro hstep
    cases hstep with
    | refuse hthere hrefused =>
        obtain rfl := Stage.claiming.inj (hthere.symm.trans hstage)
        cases hrefused.symm.trans hq
    | claim hthere hq' hgranted =>
        obtain rfl := Stage.claiming.inj (hthere.symm.trans hstage)
        obtain rfl := Except.ok.inj (hq'.symm.trans hq)
        obtain ⟨-, hfree, -⟩ := Mailbox.of_claim_granted hgranted
        cases hfree.symm.trans hbusy
    | turnAway hthere hq' hturned =>
        obtain rfl := Stage.claiming.inj (hthere.symm.trans hstage)
        obtain rfl := Except.ok.inj (hq'.symm.trans hq)
        cases hclosed : s.mailbox.closed with
        | false => rfl
        | true =>
            rw [hclosed] at hclaim
            cases hclaim.symm.trans hturned
    | shutOut hthere hq' hended =>
        obtain rfl := Stage.claiming.inj (hthere.symm.trans hstage)
        obtain rfl := Except.ok.inj (hq'.symm.trans hq)
        cases hclosed : s.mailbox.closed with
        | true => rfl
        | false =>
            rw [hclosed] at hclaim
            cases hclaim.symm.trans hended
    | issue _ hthere | send hthere | breakOff hthere | take hthere | giveUp hthere | release hthere
    | conclude hthere => cases hthere.symm.trans hstage
  · rintro rfl
    cases hclosed : s.mailbox.closed with
    | true =>
        rw [hclosed] at hclaim
        exact .shutOut hstage hq hclaim
    | false =>
        rw [hclosed] at hclaim
        exact .turnAway hstage hq hclaim

/-- A caller that holds the session comes nearer to its release with every step. -/
theorem CallerStep.releases (hholds : (s.stages i).Holds) (h : CallerStep f i s u) :
    (u.stages i).distance < (s.stages i).distance ∧
      (¬(u.stages i).Holds → u.mailbox.busy = false) := by
  have hthere (stage : Stage) : Function.update s.stages i stage i = stage :=
    Function.update_self i stage s.stages
  cases h with
  | issue _ hstage | refuse hstage | claim hstage | turnAway hstage | shutOut hstage
  | conclude hstage =>
      rw [hstage] at hholds
      exact absurd hholds (by simp)
  | send hstage | breakOff hstage | take hstage | giveUp hstage =>
      rw [hstage]
      simp [System.put, System.log, Stage.distance]
  | release hstage =>
      rw [hstage]
      simp [System.put, Stage.distance]

theorem CallerStep.stages_of_ne {j : ι} (h : CallerStep f j s u) (hne : i ≠ j) :
    u.stages i = s.stages i := by
  cases h <;> exact Function.update_of_ne hne _ _

variable [Engine σ]

/-- Nobody moves a caller but itself. -/
theorem Step.undisturbed {actor : Actor ι} (hactor : actor ≠ .caller i) (h : Step f actor s u) :
    u.stages i = s.stages i := by
  cases h with
  | caller hcaller =>
      refine hcaller.stages_of_ne ?_
      rintro rfl
      exact hactor rfl
  | agent hagent => cases hagent <;> rfl
  | reader hreader => cases hreader <;> rfl
  | cut capacity => rfl

/-- What happened is not forgotten. -/
theorem Step.history {actor : Actor ι} (h : Step f actor s u) :
    ∃ more, u.history = s.history ++ more := by
  cases h with
  | caller hcaller =>
      cases hcaller with
      | issue | claim | breakOff | giveUp | release => exact ⟨[], (List.append_nil _).symm⟩
      | _ => exact ⟨_, rfl⟩
  | agent hagent =>
      cases hagent with
      | serve => exact ⟨_, rfl⟩
      | _ => exact ⟨[], (List.append_nil _).symm⟩
  | reader hreader => cases hreader <;> exact ⟨[], (List.append_nil _).symm⟩
  | cut capacity => exact ⟨[], (List.append_nil _).symm⟩

end

/-! ## What callers may rely on -/

section

variable {σ ι : Type}

/-- What is on its way at the end of a history. -/
inductive Pending (ι : Type)
  /-- Nothing. -/
  | quiet
  /-- The message of a caller's operation, which the agent has not served. -/
  | asked (i : ι) (op : Operation)
  /-- The reply to a caller's operation, which was not taken. -/
  | answered (i : ι) (op : Operation) (reply : DebuggerMessage)
  /-- An operation that there is no reply to. -/
  | silent (i : ι) (op : Operation)

/-- A history of whole exchanges, one behind the other, except that the last one may not be over: a
caller asks, the agent reads what was asked and sends one reply, of the kind that it was asked for,
and the caller who asked takes it. Operations return at any time. -/
inductive Orderly (f : Frontier) : List (Entry ι) → Pending ι → Prop
  | start : Orderly f [] .quiet
  | asked {history : List (Entry ι)} (i : ι) (op : Operation) (h : Orderly f history .quiet) :
      Orderly f (history ++ [.asked i op]) (.asked i op)
  | served {history : List (Entry ι)} {i : ι} {op : Operation} {q : Inquiry op.Answer}
      {message : HostMessage} {reply : DebuggerMessage} (h : Orderly f history (.asked i op))
      (hq : op.inquiry? f = .ok q) (hheard : HeardAs q message) (hkind : IsReply reply message)
      (haccepts : q.Accepts reply) :
      Orderly f (history ++ [.served message [reply]]) (.answered i op reply)
  | passedOver {history : List (Entry ι)} {i : ι} {op : Operation} {q : Inquiry op.Answer}
      {message : HostMessage} (h : Orderly f history (.asked i op)) (hq : op.inquiry? f = .ok q)
      (hheard : HeardAs q message) :
      Orderly f (history ++ [.served message []]) (.silent i op)
  | took {history : List (Entry ι)} {i : ι} {op : Operation} {reply : DebuggerMessage}
      (h : Orderly f history (.answered i op reply)) :
      Orderly f (history ++ [.took i op reply]) .quiet
  | returned {history : List (Entry ι)} {pending : Pending ι} (i : ι) (op : Operation)
      (outcome : Option (Except Failure op.Answer)) (h : Orderly f history pending) :
      Orderly f (history ++ [.returned i op outcome]) pending

/-- Where the outcome of an operation comes from. -/
inductive Accounted (f : Frontier) (history : List (Entry ι)) (i : ι) (op : Operation) :
    Option (Except Failure op.Answer) → Prop
  /-- Its message could not be written. -/
  | unsent : Accounted f history i op none
  /-- It was turned away, or the connection has ended, or its text is no value. -/
  | failed {failure : Failure}
      (h : failure = .busy ∨ failure = .closed ∨ op.inquiry? f = .error failure) :
      Accounted f history i op (some (.error failure))
  /-- It is what the reply says that the caller took. -/
  | answered {q : Inquiry op.Answer} {reply : DebuggerMessage} (hq : op.inquiry? f = .ok q)
      (htook : .took i op reply ∈ history) (haccepts : q.Accepts reply) :
      Accounted f history i op (some (q.interpret reply))

/-- What the callers of a session may rely on in a state `t`. -/
structure Correlates [DecidableEq ι] [Engine σ] (f : Frontier) (t : System σ ι) : Prop where
  /-- Every caller takes the agent's reply to what it asked itself. -/
  orderly : ∃ pending, Orderly f t.history pending
  /-- One request at most has no reply that was taken. -/
  unanswered : t.history.countP Entry.isAsked ≤ t.history.countP Entry.isTook + 1
  /-- One message at most lies in the inbox. -/
  inbox : t.mailbox.inbox.length ≤ 1
  /-- The session is claimed while a caller is between its claim and its release. -/
  busy : t.mailbox.busy = true ↔ ∃ i, (t.stages i).Holds
  /-- That is one caller at a time. -/
  exclusive : ∀ i j, (t.stages i).Holds → (t.stages j).Holds → i = j
  /-- What an operation returned is accounted for. -/
  accounted : ∀ i op outcome, .returned i op outcome ∈ t.history →
    Accounted f t.history i op outcome
  /-- No operation returned that it got a reply of another kind. -/
  expected : ∀ i op outcome, .returned i op (some outcome) ∈ t.history →
    ∀ expected got, outcome ≠ .error (.unexpectedReply expected got)
  /-- A caller that does not wait for its turn, and finds the session claimed, returns that it is
  busy, or that the connection has ended if it has, and does nothing else. -/
  turnedAway : ∀ i op q, t.stages i = .claiming op → op.inquiry? f = .ok q → q.waitsIdle = false →
    t.mailbox.busy = true → ∀ u, CallerStep f i t u ↔
      u = t.finish i op (some (.error (if t.mailbox.closed then .closed else .busy)))
  /-- A caller that has claimed the session can take a step, unless it waits for a reply, and there
  is none, and the connection has not ended. -/
  proceeds : ∀ i, (t.stages i).Holds → (∃ u, CallerStep f i t u) ∨
    (∃ op, t.stages i = .waiting op) ∧ t.mailbox.inbox = [] ∧ t.mailbox.closed = false
  /-- Whatever step it takes brings it nearer to the release, and the release gives the session
  back. -/
  releases : ∀ i u, (t.stages i).Holds → CallerStep f i t u →
    (u.stages i).distance < (t.stages i).distance ∧
      (¬(u.stages i).Holds → u.mailbox.busy = false)
  /-- Nobody else moves it. -/
  undisturbed : ∀ i actor u, actor ≠ .caller i → Step f actor t u → u.stages i = t.stages i
  /-- The stops that were told are those that successful commands returned. -/
  stops : t.notices.filterMap Notice.cause? = t.history.filterMap Entry.cause?

end

end ScriptDebugger.Session
