import ScriptDebugger.Proofs.Adapter.Framing
import ScriptDebugger.Proofs.Adapter.Playing
import ScriptDebugger.Proofs.Session.Assignments
/-!
# Serving requests

One thread takes the requests in turn and carries out their tasks. Workers write events meanwhile,
whenever they come to it. Whoever writes takes the next number. A request is responded to once,
whatever the outcomes are that its task waits for and wherever the events come, and the serving
thread gets on unless it waits for an outcome. What a run of the server writes is written by one of
these ways to serve.

A request may be written and not be read: the reader refuses arguments of too many arrays and
objects inside one another, and numbers that it does not read back. Such a request is skipped.

## Main results

* `Service.Balanced.step` — responses are in step with requests, whoever does something.
* `Service.acc_of_coming` — the serving thread does not go on for ever.
* `Service.reaches_serve` — what a server writes is written by serving step by step.
* `each_request_answered_once` — one response for each request, and consecutive numbers.
-/

namespace ScriptDebugger.Adapter

open Session (Inquiry Failure Frontier)
open Wire (HostMessage)

/-! ## The service -/

/-- The adapter at work: the serving thread, and what was written by it and by the workers. -/
structure Service where
  /-- What the serving thread keeps. -/
  desk : Desk
  /-- The requests that were not taken yet. -/
  coming : List Request
  /-- The request that is being dealt with, if there is one, and what is left to do for it. -/
  current : Option (Request × Task) := none
  /-- Whether the last request was dealt with. -/
  finished : Bool := false
  /-- The number that was taken last. -/
  seq : Nat := 0
  /-- What was written, in that order. -/
  written : List Message := []

namespace Service

/-- The service before the first request. -/
def start (desk : Desk) (requests : List Request) : Service := { desk, coming := requests }

/-- Writes a content under the next number. Only one thread at a time can. -/
def send (s : Service) (content : Content) : Service :=
  { s with seq := s.seq + 1, written := s.written ++ [.ofContent (s.seq + 1) content] }

/-- What the serving thread does next. An outcome that it waited for may be any. -/
inductive Serving (s : Service) : Service → Prop
  /-- It takes a request. -/
  | take {r : Request} {rest : List Request} (hidle : s.current = none) (hmore : s.finished = false)
    (hcoming : s.coming = r :: rest) :
    Serving s { s with coming := rest, current := some (r, s.desk.task r) }
  /-- It writes. -/
  | write {r : Request} {content : Content} {next : Task}
    (hcurrent : s.current = some (r, .write content next)) :
    Serving s ({ s with current := some (r, next) }.send content)
  /-- The session answers, or cannot. -/
  | answered {r : Request} {α : Type} {q : Inquiry α} {next : Except Failure α → Task}
    (hcurrent : s.current = some (r, .ask q next)) (outcome : Except Failure α) :
    Serving s { s with current := some (r, next outcome) }
  /-- A program has started, in a session of its own. -/
  | started {r : Request} {plan : LaunchPlan} {next : Except String Frontier → Task}
    (hcurrent : s.current = some (r, .launch plan next)) (f : Frontier) :
    Serving s
      { s with current := some (r, next (.ok f)), desk := { s.desk with session := some f } }
  /-- A program has failed to start. -/
  | failed {r : Request} {plan : LaunchPlan} {next : Except String Frontier → Task}
    (hcurrent : s.current = some (r, .launch plan next)) (reason : String) :
    Serving s { s with current := some (r, next (.error reason)) }
  /-- It leaves the program to a worker. -/
  | spawned {r : Request} {message : HostMessage} {next : Task}
    (hcurrent : s.current = some (r, .spawn message next)) :
    Serving s { s with current := some (r, next) }
  /-- It ends the session. -/
  | closed {r : Request} {terminate : Bool} {next : Task}
    (hcurrent : s.current = some (r, .close terminate next)) :
    Serving s { s with current := some (r, next), desk := { s.desk with session := none } }
  /-- It is done with a request. -/
  | finish {r : Request} {plan : Option LaunchPlan} {breakpoints : List (String × List Int)}
    (hcurrent : s.current = some (r, .finish plan breakpoints)) :
    Serving s
      { s with current := none, finished := r.isLast, desk := { s.desk with plan, breakpoints } }

/-- A worker writes an event. -/
inductive Working (s : Service) : Service → Prop
  | event {content : Content} (hcontent : content.IsEvent) : Working s (s.send content)

/-- A thread does something. -/
def Step (s s' : Service) : Prop := Serving s s' ∨ Working s s'

/-- The threads do things one after another. -/
def Reaches : Service → Service → Prop := Relation.ReflTransGen Step

/-- The serving thread has nothing left to do. -/
def AtEnd (s : Service) : Prop := s.current = none ∧ (s.finished = true ∨ s.coming = [])

end Service

/-! ## Responses in step with requests -/

/-- The requests up to the last one that is served. -/
def upToLast : List Request → List Request
  | [] => []
  | r :: rest => r :: if r.isLast then [] else upToLast rest

/-- Whether a message is a response. -/
def Message.isResponse (m : Message) : Bool :=
  match m.content with
  | .response .. => true
  | _ => false

/-- The messages that were written are numbered from one on, and those of them that are responses
answer the requests in turn. -/
structure Transcribes (requests : List Request) (written : List Message) : Prop where
  /-- The numbers. -/
  numbers : written.map Message.seq = List.range' 1 written.length
  /-- The responses. -/
  responses : List.Forall₂ (fun m r => m.content.Answers r)
    (written.filter Message.isResponse) requests

namespace Service

/-- The requests that will be dealt with from here on, with the one that is being dealt with. -/
def pending (s : Service) : List Request :=
  match s.current with
  | some (r, _) => upToLast (r :: s.coming)
  | none => if s.finished then [] else upToLast s.coming

/-- The responses written so far answer some requests. -/
def HasAnswered (s : Service) (requests : List Request) : Prop :=
  List.Forall₂ (fun m r => m.content.Answers r) (s.written.filter Message.isResponse) requests

/-- How far the responses are. -/
inductive Balanced (requests : List Request) (s : Service) : Prop
  /-- All requests that were taken are answered. -/
  | idle {done : List Request} (hcurrent : s.current = none) (hanswered : s.HasAnswered done)
    (hdone : done ++ s.pending = upToLast requests)
  /-- The one that is being dealt with is answered, or its task owes the response. -/
  | busy {done answered : List Request} {r : Request} {t : Task} {n : Nat}
    (hcurrent : s.current = some (r, t)) (howes : t.Owes r n) (hanswered : s.HasAnswered answered)
    (hbalance : answered ++ List.replicate n r = done ++ [r])
    (hdone : done ++ s.pending = upToLast requests)

variable {requests done : List Request} {s s' : Service} {r : Request}

theorem current_inj {r' : Request} {t t' : Task} (h : s.current = some (r, t))
    (h' : s.current = some (r', t')) : r = r' ∧ t = t' :=
  Prod.mk.inj (Option.some.inj (h.symm.trans h'))

theorem hasAnswered_send_event {content : Content} (hcontent : content.IsEvent) :
    (s.send content).HasAnswered done ↔ s.HasAnswered done := by
  obtain ⟨name, body, rfl⟩ := hcontent
  simp [HasAnswered, send, Message.isResponse]

theorem HasAnswered.send_response {content : Content} (h : s.HasAnswered done)
    (hcontent : content.Answers r) : (s.send content).HasAnswered (done ++ [r]) := by
  have hresponse : (Message.ofContent (s.seq + 1) content).isResponse = true := by
    obtain ⟨success, message, body, rfl, -⟩ := hcontent
    rfl
  rw [HasAnswered, send, List.filter_append, List.filter_cons_of_pos hresponse, List.filter_nil]
  exact List.rel_append h (.cons hcontent .nil)

theorem Balanced.start (desk : Desk) (requests : List Request) :
    Balanced requests (start desk requests) :=
  .idle rfl .nil rfl

/-- The serving thread gets on in a task without writing. -/
theorem Balanced.go {t next : Task} (h : Balanced requests s) (hcurrent : s.current = some (r, t))
    (howes : ∀ n, t.Owes r n → next.Owes r n) (hnext : s'.current = some (r, next))
    (hcoming : s'.coming = s.coming) (hwritten : s'.written = s.written) :
    Balanced requests s' := by
  cases h with
  | idle hidle => cases hidle.symm.trans hcurrent
  | busy hbusy howes' hanswered hbalance hdone =>
      obtain ⟨rfl, rfl⟩ := current_inj hbusy hcurrent
      have hpending : s'.pending = s.pending := by
        simp only [pending, hcurrent, hnext, hcoming]
      refine .busy hnext (howes _ howes') ?_ hbalance (hpending ▸ hdone)
      rwa [HasAnswered, hwritten]

theorem Balanced.serving (h : Balanced requests s) (hstep : Serving s s') :
    Balanced requests s' := by
  cases hstep with
  | take hidle hmore hcoming =>
      cases h with
      | busy hbusy => cases hidle.symm.trans hbusy
      | idle _ hanswered hdone =>
          refine .busy rfl (s.desk.task_owes _) hanswered rfl ?_
          simpa [pending, hidle, hmore, hcoming] using hdone
  | @write _ content next hcurrent =>
      cases h with
      | idle hidle => cases hidle.symm.trans hcurrent
      | @busy _ _ r _ _ hbusy howes hanswered hbalance hdone =>
          obtain ⟨rfl, rfl⟩ := current_inj hbusy hcurrent
          have hpending :
              ({ s with current := some (r, next) }.send content).pending = s.pending := by
            simp only [pending, hcurrent, send]
          cases howes with
          | response hcontent hnext =>
              refine .busy rfl hnext (HasAnswered.send_response hanswered hcontent) ?_
                (hpending ▸ hdone)
              rw [List.append_assoc, ← hbalance]
              rfl
          | event hcontent hnext =>
              exact .busy rfl hnext ((hasAnswered_send_event hcontent).2 hanswered) hbalance
                (hpending ▸ hdone)
  | answered hcurrent outcome =>
      refine h.go hcurrent (fun n howes => ?_) rfl rfl rfl
      cases howes with
      | ask hnext => exact hnext outcome
  | started hcurrent f =>
      refine h.go hcurrent (fun n howes => ?_) rfl rfl rfl
      cases howes with
      | launch hnext => exact hnext (.ok f)
  | failed hcurrent reason =>
      refine h.go hcurrent (fun n howes => ?_) rfl rfl rfl
      cases howes with
      | launch hnext => exact hnext (.error reason)
  | spawned hcurrent =>
      refine h.go hcurrent (fun n howes => ?_) rfl rfl rfl
      cases howes with
      | spawn hnext => exact hnext
  | closed hcurrent =>
      refine h.go hcurrent (fun n howes => ?_) rfl rfl rfl
      cases howes with
      | close hnext => exact hnext
  | finish hcurrent =>
      cases h with
      | idle hidle => cases hidle.symm.trans hcurrent
      | busy hbusy howes hanswered hbalance hdone =>
          obtain ⟨rfl, rfl⟩ := current_inj hbusy hcurrent
          cases howes
          rw [List.replicate_zero, List.append_nil] at hbalance
          refine .idle rfl (hbalance ▸ hanswered) ?_
          simpa [pending, hcurrent, upToLast] using hdone

theorem Balanced.working (h : Balanced requests s) (hstep : Working s s') :
    Balanced requests s' := by
  cases hstep with
  | event hcontent =>
      cases h with
      | idle hcurrent hanswered hdone =>
          exact .idle hcurrent ((hasAnswered_send_event hcontent).2 hanswered) hdone
      | busy hcurrent howes hanswered hbalance hdone =>
          exact .busy hcurrent howes ((hasAnswered_send_event hcontent).2 hanswered) hbalance hdone

/-- Responses are in step with requests, whoever does something. -/
theorem Balanced.step (h : Balanced requests s) (hstep : Step s s') : Balanced requests s' :=
  hstep.elim h.serving h.working

theorem Balanced.reaches (h : Balanced requests s) (hreaches : Reaches s s') :
    Balanced requests s' := by
  induction hreaches with
  | refl => exact h
  | tail _ hstep ih => exact ih.step hstep

/-! ## Numbers -/

/-- The messages written so far are numbered from one on. -/
structure Numbered (s : Service) : Prop where
  /-- The number that was taken last is how many were written. -/
  count : s.seq = s.written.length
  /-- The numbers. -/
  numbers : s.written.map Message.seq = List.range' 1 s.written.length

theorem Numbered.start (desk : Desk) (requests : List Request) : Numbered (start desk requests) :=
  ⟨rfl, rfl⟩

theorem Numbered.send (h : Numbered s) (content : Content) : Numbered (s.send content) where
  count := by simp [Service.send, h.count]
  numbers := by
    have hlast : Message.seq (.ofContent (s.seq + 1) content) = 1 + s.written.length := by
      rw [Message.ofContent, h.count, Nat.add_comm]
    rw [Service.send, List.map_append, List.map_singleton, h.numbers, hlast, List.length_append,
      List.length_singleton, List.range'_1_concat]

theorem Numbered.step (h : Numbered s) (hstep : Step s s') : Numbered s' := by
  rcases hstep with hstep | hstep
  · cases hstep with
    | @write r content next _ =>
        exact Numbered.send (s := { s with current := some (r, next) }) ⟨h.count, h.numbers⟩ content
    | _ => exact ⟨h.count, h.numbers⟩
  · cases hstep with
    | event => exact h.send _

theorem Numbered.reaches (h : Numbered s) (hreaches : Reaches s s') : Numbered s' := by
  induction hreaches with
  | refl => exact h
  | tail _ hstep ih => exact ih.step hstep

/-! ## Getting on -/

/-- The serving thread gets on unless it has nothing left to do. An outcome that it waits for has to
come. -/
theorem exists_serving (s : Service) (h : ¬s.AtEnd) : ∃ s', Serving s s' := by
  obtain ⟨desk, coming, current, finished, seq, written⟩ := s
  cases current with
  | none =>
      cases coming with
      | nil => exact absurd ⟨rfl, .inr rfl⟩ h
      | cons r rest =>
          cases finished with
          | true => exact absurd ⟨rfl, .inl rfl⟩ h
          | false => exact ⟨_, .take rfl rfl rfl⟩
  | some dealt =>
      obtain ⟨r, t⟩ := dealt
      cases t with
      | finish plan breakpoints => exact ⟨_, .finish rfl⟩
      | write content next => exact ⟨_, .write rfl⟩
      | ask q next => exact ⟨_, .answered rfl (.error .closed)⟩
      | launch plan next => exact ⟨_, .failed rfl ""⟩
      | spawn message next => exact ⟨_, .spawned rfl⟩
      | close terminate next => exact ⟨_, .closed rfl⟩

/-- What the serving thread does next after some events of the workers. -/
def ServesNext (s s' : Service) : Prop := ∃ m, Relation.ReflTransGen Working s m ∧ Serving m s'

/-- What is left to do for the serving thread does not change by what workers do. -/
theorem working_left (h : Relation.ReflTransGen Working s s') :
    s'.coming = s.coming ∧ s'.current = s.current := by
  induction h with
  | refl => exact ⟨rfl, rfl⟩
  | tail _ hstep ih =>
      cases hstep with
      | event => exact ih

/-- What the serving thread does next for a request that it deals with. -/
theorem serving_of_some {t : Task} (hcurrent : s.current = some (r, t)) (h : Serving s s') :
    s'.coming = s.coming ∧
      (s'.current = none ∨ ∃ next, t.Next next ∧ s'.current = some (r, next)) := by
  cases h with
  | take hidle => cases hidle.symm.trans hcurrent
  | write hbusy =>
      obtain ⟨rfl, rfl⟩ := current_inj hbusy hcurrent
      exact ⟨rfl, .inr ⟨_, .write, rfl⟩⟩
  | answered hbusy outcome =>
      obtain ⟨rfl, rfl⟩ := current_inj hbusy hcurrent
      exact ⟨rfl, .inr ⟨_, .ask outcome, rfl⟩⟩
  | started hbusy f =>
      obtain ⟨rfl, rfl⟩ := current_inj hbusy hcurrent
      exact ⟨rfl, .inr ⟨_, .launch (.ok f), rfl⟩⟩
  | failed hbusy reason =>
      obtain ⟨rfl, rfl⟩ := current_inj hbusy hcurrent
      exact ⟨rfl, .inr ⟨_, .launch (.error reason), rfl⟩⟩
  | spawned hbusy =>
      obtain ⟨rfl, rfl⟩ := current_inj hbusy hcurrent
      exact ⟨rfl, .inr ⟨_, .spawn, rfl⟩⟩
  | closed hbusy =>
      obtain ⟨rfl, rfl⟩ := current_inj hbusy hcurrent
      exact ⟨rfl, .inr ⟨_, .close, rfl⟩⟩
  | finish hbusy => exact ⟨rfl, .inl rfl⟩

/-- Between two requests the serving thread takes one. -/
theorem serving_of_none (hcurrent : s.current = none) (h : Serving s s') :
    ∃ r rest, s.coming = r :: rest ∧ s'.coming = rest ∧
      s'.current = some (r, s.desk.task r) := by
  cases h with
  | take _ _ hcoming => exact ⟨_, _, hcoming, rfl, rfl⟩
  | write hbusy => cases hcurrent.symm.trans hbusy
  | answered hbusy => cases hcurrent.symm.trans hbusy
  | started hbusy => cases hcurrent.symm.trans hbusy
  | failed hbusy => cases hcurrent.symm.trans hbusy
  | spawned hbusy => cases hcurrent.symm.trans hbusy
  | closed hbusy => cases hcurrent.symm.trans hbusy
  | finish hbusy => cases hcurrent.symm.trans hbusy

theorem acc_of_some {coming : List Request}
    (hidle : ∀ s : Service, s.coming = coming → s.current = none → Acc (Function.swap ServesNext) s)
    (t : Task) {s : Service} (hcoming : s.coming = coming) (hcurrent : s.current = some (r, t)) :
    Acc (Function.swap ServesNext) s := by
  induction t.acc generalizing s with
  | intro t _ ih =>
      refine .intro s fun s' ⟨m, hworking, hserving⟩ => ?_
      obtain ⟨hleft, hleft'⟩ := working_left hworking
      obtain ⟨hcoming', hnone | ⟨next, hnext, hcurrent'⟩⟩ :=
        serving_of_some (hleft'.trans hcurrent) hserving
      · exact hidle s' (hcoming'.trans (hleft.trans hcoming)) hnone
      · exact ih next hnext (hcoming'.trans (hleft.trans hcoming)) hcurrent'

theorem acc_of_none (coming : List Request) {s : Service} (hcoming : s.coming = coming)
    (hcurrent : s.current = none) : Acc (Function.swap ServesNext) s := by
  induction coming generalizing s with
  | nil =>
      refine .intro s fun s' ⟨m, hworking, hserving⟩ => ?_
      obtain ⟨hleft, hleft'⟩ := working_left hworking
      obtain ⟨r, rest, hcons, -⟩ := serving_of_none (hleft'.trans hcurrent) hserving
      cases hcons.symm.trans (hleft.trans hcoming)
  | cons request rest ih =>
      refine .intro s fun s' ⟨m, hworking, hserving⟩ => ?_
      obtain ⟨hleft, hleft'⟩ := working_left hworking
      obtain ⟨r, others, hcons, hcoming', hcurrent'⟩ :=
        serving_of_none (hleft'.trans hcurrent) hserving
      obtain ⟨rfl, rfl⟩ := List.cons.inj (hcons.symm.trans (hleft.trans hcoming))
      exact acc_of_some (fun _ h h' => ih h h') _ hcoming' hcurrent'

/-- However the outcomes and the events come, the serving thread does not go on for ever. -/
theorem wellFounded_servesNext : WellFounded (Function.swap ServesNext) := by
  refine ⟨fun s => ?_⟩
  cases hcurrent : s.current with
  | none => exact acc_of_none s.coming rfl hcurrent
  | some dealt =>
      obtain ⟨r, t⟩ := dealt
      exact acc_of_some (fun _ h h' => acc_of_none _ h h') t rfl hcurrent

/-! ## Runs of the server -/

/-- Writes contents one after another. -/
def sendAll (s : Service) (contents : List Content) : Service :=
  { s with
    seq := s.seq + contents.length, written := s.written ++ Message.number (s.seq + 1) contents }

@[simp]
theorem sendAll_nil (s : Service) : s.sendAll [] = s := by
  simp [sendAll, Message.number]

theorem sendAll_cons (s : Service) (content : Content) (contents : List Content) :
    s.sendAll (content :: contents) = (s.send content).sendAll contents := by
  simp [sendAll, send, Message.number, Nat.add_comm, Nat.add_left_comm]

theorem sendAll_append (s : Service) (front back : List Content) :
    s.sendAll (front ++ back) = (s.sendAll front).sendAll back := by
  induction front generalizing s with
  | nil => rw [List.nil_append, sendAll_nil]
  | cons content front ih => rw [List.cons_append, sendAll_cons, sendAll_cons, ih]

/-- Workers write events one after another. -/
theorem reaches_sendAll (s : Service) {events : List Content} (h : ∀ c ∈ events, c.IsEvent) :
    Reaches s (s.sendAll events) := by
  induction events generalizing s with
  | nil =>
      rw [sendAll_nil]
      exact .refl
  | cons event events ih =>
      rw [sendAll_cons]
      exact .head (.inr (.event (h event List.mem_cons_self)))
        (ih _ fun c hc => h c (List.mem_cons_of_mem event hc))

/-- The service once a request is dealt with. -/
def settle (s : Service) (r : Request) (desk : Desk) : Service :=
  { s with current := none, finished := r.isLast, desk }

variable {π : Type} [Target π] {fuel : Nat} {setting : Setting π}

/-- The serving thread and the workers write what carrying out a task writes. -/
theorem reaches_play (t : Task) {server server' : Server π} {sent : List Content}
    (h : t.play fuel setting server = some (server', sent)) {s : Service}
    (hcurrent : s.current = some (r, t)) (hdesk : s.desk = server.desk) :
    Reaches s ((s.sendAll sent).settle r server'.desk) := by
  induction t generalizing server server' sent s with
  | finish plan breakpoints =>
      obtain ⟨rfl, rfl⟩ := Prod.mk.inj (Option.some.inj h)
      rw [sendAll_nil]
      have hstep := Serving.finish hcurrent
      rw [hdesk] at hstep
      exact .single (.inl hstep)
  | write content next ih =>
      obtain ⟨⟨after, others⟩, hnext, hresult⟩ := Option.map_eq_some_iff.1 h
      obtain ⟨rfl, rfl⟩ := Prod.mk.inj hresult
      rw [sendAll_cons]
      exact .head (.inl (.write hcurrent)) (ih hnext rfl hdesk)
  | ask q next ih =>
      obtain ⟨l, hlive, h⟩ := Option.bind_eq_some_iff.1 h
      obtain ⟨⟨asked, l', outcome⟩, hask, hnext⟩ := Option.bind_eq_some_iff.1 h
      have hkept := (Server.of_ask_desk fuel hlive hask).2
      exact .head (.inl (.answered hcurrent outcome))
        (ih outcome hnext rfl (hdesk.trans hkept.symm))
  | launch plan next ih =>
      obtain ⟨⟨after, outcome, before, behind⟩, hlaunched, h⟩ := Option.bind_eq_some_iff.1 h
      obtain ⟨⟨last, others⟩, hnext, hresult⟩ := Option.bind_eq_some_iff.1 h
      obtain ⟨rfl, rfl⟩ := Prod.mk.inj (Option.some.inj hresult)
      obtain ⟨hbefore, hbehind, houtcome⟩ := Server.of_launched fuel setting hlaunched
      rw [List.append_assoc, sendAll_append, sendAll_append]
      refine (reaches_sendAll s hbefore).trans (.trans (b := ((s.sendAll before).sendAll
        others).settle r last.desk) ?_ (reaches_sendAll _ hbehind))
      rcases houtcome with ⟨reason, rfl, hkept⟩ | ⟨f, rfl, hkept⟩
      · have hstep := Serving.failed (s := s.sendAll before) hcurrent reason
        exact .head (.inl hstep) (ih _ hnext rfl (hdesk.trans hkept.symm))
      · have hstep := Serving.started (s := s.sendAll before) hcurrent f
        exact .head (.inl hstep) (ih _ hnext rfl (by rw [hkept, ← hdesk]; rfl))
  | spawn message next ih =>
      obtain ⟨l, hlive, h⟩ := Option.bind_eq_some_iff.1 h
      obtain ⟨⟨after, events⟩, hproceed, h⟩ := Option.bind_eq_some_iff.1 h
      obtain ⟨⟨last, others⟩, hnext, hresult⟩ := Option.bind_eq_some_iff.1 h
      obtain ⟨rfl, rfl⟩ := Prod.mk.inj (Option.some.inj hresult)
      have hkept := Server.of_proceed_desk fuel hlive hproceed
      rw [sendAll_append]
      exact (reaches_sendAll s (Server.isEvent_of_proceed fuel hproceed)).trans
        (.head (.inl (.spawned hcurrent)) (ih hnext rfl (hdesk.trans hkept.symm)))
  | close terminate next ih =>
      obtain ⟨⟨after, events⟩, hclosed, h⟩ := Option.bind_eq_some_iff.1 h
      obtain ⟨⟨last, others⟩, hnext, hresult⟩ := Option.bind_eq_some_iff.1 h
      obtain ⟨rfl, rfl⟩ := Prod.mk.inj (Option.some.inj hresult)
      obtain ⟨hkept, hevents⟩ := Server.of_closed fuel hclosed
      rw [sendAll_append]
      refine (reaches_sendAll s hevents).trans (.head (.inl (.closed hcurrent)) ?_)
      exact ih hnext rfl (by rw [hkept, ← hdesk]; rfl)

/-- What a server writes is written by serving step by step. -/
theorem reaches_serve (requests : List Request) {server : Server π} {sent : List (List Content)}
    {last : List Content} {flow : Flow}
    (h : server.serve fuel setting requests = some (sent, last, flow)) {s : Service}
    (hcurrent : s.current = none) (hmore : s.finished = false) (hcoming : s.coming = requests)
    (hdesk : s.desk = server.desk) :
    ∃ s', Reaches s s' ∧ s'.AtEnd ∧
      s'.written = s.written ++ Message.number (s.seq + 1) (sent.flatten ++ last) := by
  induction requests generalizing server sent last flow s with
  | nil =>
      obtain ⟨⟨closed, events⟩, hclose, hresult⟩ := Option.map_eq_some_iff.1 h
      obtain ⟨rfl, hrest⟩ := Prod.mk.inj hresult
      obtain ⟨rfl, rfl⟩ := Prod.mk.inj hrest
      exact ⟨_, reaches_sendAll s (Server.isEvent_of_closeSession fuel hclose),
        ⟨hcurrent, .inr hcoming⟩, rfl⟩
  | cons r rest ih =>
      obtain ⟨⟨after, contents, goes⟩, hhandle, h⟩ := Option.bind_eq_some_iff.1 h
      rw [Server.handle_eq_play] at hhandle
      obtain ⟨⟨after', contents'⟩, hplay, hresult⟩ := Option.map_eq_some_iff.1 hhandle
      obtain ⟨rfl, hrest⟩ := Prod.mk.inj hresult
      obtain ⟨rfl, rfl⟩ := Prod.mk.inj hrest
      let taken : Service := { s with coming := rest, current := some (r, s.desk.task r) }
      have htake : Reaches s taken := .single (.inl (.take hcurrent hmore hcoming))
      have hdealt : Reaches s ((taken.sendAll contents').settle r after'.desk) :=
        htake.trans (reaches_play _ hplay (by rw [← hdesk]) hdesk)
      cases hlast : r.isLast with
      | true =>
          simp only [hlast, if_true] at h
          obtain ⟨⟨closed, events⟩, hclose, hresult⟩ := Option.bind_eq_some_iff.1 h
          obtain ⟨rfl, hrest⟩ := Prod.mk.inj (Option.some.inj hresult)
          obtain ⟨rfl, rfl⟩ := Prod.mk.inj hrest
          refine ⟨_, hdealt.trans (reaches_sendAll _ (Server.isEvent_of_closeSession fuel hclose)),
            ⟨rfl, .inl hlast⟩, ?_⟩
          rw [List.flatten_singleton]
          exact (congrArg Service.written (sendAll_append s contents' events)).symm
      | false =>
          simp only [hlast] at h
          obtain ⟨⟨others, events, flow'⟩, hserve, hresult⟩ := Option.bind_eq_some_iff.1 h
          obtain ⟨rfl, hrest⟩ := Prod.mk.inj (Option.some.inj hresult)
          obtain ⟨rfl, rfl⟩ := Prod.mk.inj hrest
          obtain ⟨s', hreaches, hend, hwritten⟩ :=
            ih hserve (s := (taken.sendAll contents').settle r after'.desk) rfl hlast rfl rfl
          refine ⟨s', hdealt.trans hreaches, hend, hwritten.trans ?_⟩
          rw [List.flatten_cons, List.append_assoc]
          exact (congrArg Service.written
            (sendAll_append s contents' (others.flatten ++ events))).symm

/-- The responses written so far answer the first of the requests. -/
theorem Balanced.exists_transcribes (h : Balanced requests s) (hnumbered : Numbered s) :
    ∃ answered, answered <+: upToLast requests ∧ Transcribes answered s.written := by
  cases h with
  | idle hcurrent hanswered hdone => exact ⟨_, ⟨_, hdone⟩, hnumbered.numbers, hanswered⟩
  | @busy done answered r t n hcurrent howes hanswered hbalance hdone =>
      have hpending : s.pending = r :: if r.isLast then [] else upToLast s.coming := by
        rw [pending, hcurrent]
        rfl
      rw [hpending, ← List.singleton_append, ← List.append_assoc, ← hbalance, List.append_assoc]
        at hdone
      exact ⟨answered, ⟨_, hdone⟩, hnumbered.numbers, hanswered⟩

/-- In the end all requests up to the last one are answered. -/
theorem Balanced.transcribes (h : Balanced requests s) (hnumbered : Numbered s) (hend : s.AtEnd) :
    Transcribes (upToLast requests) s.written := by
  obtain ⟨hidle, hrest⟩ := hend
  cases h with
  | busy hbusy => cases hidle.symm.trans hbusy
  | idle _ hanswered hdone =>
      have hpending : s.pending = [] := by
        rcases hrest with hfinished | hnone
        · simp [pending, hidle, hfinished]
        · simp [pending, hidle, hnone, upToLast]
      rw [hpending, List.append_nil] at hdone
      exact ⟨hnumbered.numbers, hdone ▸ hanswered⟩

end Service

/-! ## One response for each request -/

section

variable {π : Type} [Target π]

/-- Whatever the outcomes are and wherever the events of the workers come, the responses answer the
requests in turn, each once, with its number and its command, and the messages are numbered from one
on. The serving thread gets on until it has answered every request up to the last one, and it cannot
go on for ever. A run of a server over envelopes writes what is written by such a way to serve the
requests that they ask for. An envelope with a written request asks for that request exactly if its
arguments can be read. -/
theorem each_request_answered_once :
    (∀ (desk : Desk) (requests : List Request) (s : Service),
        Service.Reaches (.start desk requests) s →
          (∃ answered, answered <+: upToLast requests ∧ Transcribes answered s.written) ∧
            (s.AtEnd → Transcribes (upToLast requests) s.written) ∧
            (¬s.AtEnd → ∃ s', s.Serving s')) ∧
      WellFounded (Function.swap Service.ServesNext) ∧
      (∀ (envelopes : List Envelope) (requests : List Request),
        List.Forall₂ Envelope.Asks envelopes requests →
          ∀ (fuel : Nat) (setting : Setting π) (server : Server π) (written : List Message)
            (ending : Option InputError),
            server.run fuel setting (bytesOf envelopes) = some (written, ending) →
              Transcribes (upToLast requests) written ∧
                ∃ s, Service.Reaches (.start server.desk requests) s ∧ s.AtEnd ∧
                  s.written = written) ∧
      ∀ (seq : Nat) (type command : String) (arguments : Option Json) (r : Request)
        (h : (Text.Utf8.encode
          (Message.mk seq type (.request command arguments)).toJson.text).length < UInt64.size),
        seq < UInt64.size →
        ((Envelope.ofMessage ⟨seq, type, .request command arguments⟩ h).Asks r ↔
          (arguments.getD .null).nesting < Json.Progress.depthLimit ∧
            ∃ j, (arguments.getD .null).reread = some j ∧ r = ⟨seq, command, j.canonical⟩) := by
  have hserved : ∀ (desk : Desk) (requests : List Request) (s : Service),
      Service.Reaches (.start desk requests) s →
        Service.Balanced requests s ∧ Service.Numbered s :=
    fun desk requests s hreaches =>
      ⟨(Service.Balanced.start desk requests).reaches hreaches,
        (Service.Numbered.start desk requests).reaches hreaches⟩
  refine ⟨fun desk requests s hreaches => ?_, Service.wellFounded_servesNext,
    fun envelopes requests hasks fuel setting server written ending hrun => ?_,
    fun seq type command arguments r h hseq =>
      Envelope.asks_request_iff hseq type command arguments h⟩
  · obtain ⟨hbalanced, hnumbered⟩ := hserved desk requests s hreaches
    exact ⟨hbalanced.exists_transcribes hnumbered, hbalanced.transcribes hnumbered,
      s.exists_serving⟩
  · rw [Server.run_of_asks hasks] at hrun
    obtain ⟨⟨sent, last, flow⟩, hserve, hresult⟩ := Option.map_eq_some_iff.1 hrun
    obtain ⟨rfl, rfl⟩ := Prod.mk.inj hresult
    obtain ⟨s, hreaches, hend, hwritten⟩ :=
      Service.reaches_serve requests hserve (s := .start server.desk requests) rfl rfl rfl rfl
    obtain ⟨hbalanced, hnumbered⟩ := hserved _ requests s hreaches
    have hsame : s.written = Server.transcript sent last := hwritten
    exact ⟨hsame ▸ hbalanced.transcribes hnumbered hend, s, hreaches, hend, hsame⟩

end

/-- The last request. -/
def leaveMessage : Message := .ofContent 3 (.request "disconnect" none)

/-- Two requests, of which the second is the last one, are answered in turn. -/
theorem each_request_answered_once_two :
    Transcribes [⟨2, "threads", .null⟩, ⟨3, "disconnect", .null⟩]
        [.ofContent 1 (.response 2 true "threads" none (some threads.canonical)),
          .ofContent 2 (.response 3 true "disconnect" none none)] ∧
      justStarted.run 0 (Console.setting noFiles) (threadsMessage.encode ++ leaveMessage.encode) =
        some ([.ofContent 1 (.response 2 true "threads" none (some threads.canonical)),
          .ofContent 2 (.response 3 true "disconnect" none none)], none) := by
  have hlength : (Text.Utf8.encode leaveMessage.toJson.text).length < UInt64.size := by
    decide +kernel
  have hleave : (Envelope.ofMessage leaveMessage hlength).Asks ⟨3, "disconnect", .null⟩ :=
    (Envelope.asks_request_iff (by decide) "request" "disconnect" none hlength).2
      ⟨by decide, .null, rfl, rfl⟩
  have hasks : List.Forall₂ Envelope.Asks
      [.ofMessage threadsMessage threadsMessage_length, .ofMessage leaveMessage hlength]
      [⟨2, "threads", .null⟩, ⟨3, "disconnect", .null⟩] :=
    .cons asks_threadsMessage (.cons hleave .nil)
  have hrun : justStarted.run 0 (Console.setting noFiles) (bytesOf
        [.ofMessage threadsMessage threadsMessage_length, .ofMessage leaveMessage hlength]) =
      some ([.ofContent 1 (.response 2 true "threads" none (some threads.canonical)),
        .ofContent 2 (.response 3 true "disconnect" none none)], none) :=
    Server.run_of_asks hasks 0 (Console.setting noFiles) justStarted
  refine ⟨(each_request_answered_once.2.2.1 _ _ hasks 0 (Console.setting noFiles) justStarted _ _
    hrun).1, ?_⟩
  rwa [bytesOf, List.flatMap_cons, List.flatMap_singleton] at hrun

/-- A request whose arguments are 127 arrays inside one another. -/
def deepMessage : Message := .ofContent 1 (.request "threads" (some (Session.nested 127)))

/-- It is not read, and nothing is written for it. -/
theorem deep_arguments_unanswered :
    deepMessage.encode = (Envelope.ofMessage deepMessage (by decide +kernel)).bytes ∧
      justStarted.run 0 (Console.setting noFiles) deepMessage.encode = some ([], none) := by
  have hlength : (Text.Utf8.encode deepMessage.toJson.text).length < UInt64.size := by
    decide +kernel
  have hnone : (Envelope.ofMessage deepMessage hlength).request? = none := by
    refine Option.eq_none_iff_forall_ne_some.2 fun r hr => ?_
    obtain ⟨hdepth, -⟩ := (Envelope.asks_request_iff (by decide) "request" "threads"
      (some (Session.nested 127)) hlength).1 (Envelope.request?_eq_some_iff.1 hr)
    rw [Option.getD_some, Session.nesting_nested] at hdepth
    exact absurd hdepth (by decide)
  have hrun := Server.run_bytesOf 0 (Console.setting noFiles) justStarted
    [.ofMessage deepMessage hlength]
  rw [bytesOf, List.flatMap_singleton, List.filterMap_cons_none hnone] at hrun
  exact ⟨(Envelope.bytes_ofMessage hlength).symm, hrun⟩

end ScriptDebugger.Adapter
