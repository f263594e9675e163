import ScriptDebugger.Proofs.Session.Callers
/-!
# Requests and replies

One extra reply of the agent, or one too few, would shift every later answer by one. So what carries
the proof is where the one request is that has no reply yet: in the bytes on their way to the agent,
with the agent, in the bytes on their way back, or in the inbox (`Carried`); and that the caller who
asked still waits for it, or else the connection has ended and nobody writes any more (`Attended`).
The bytes are compared by what a decoder makes of them (`StandsFor`), since it may have read some of
them and be in the middle of a frame.

## Main results

* `Sound.serve` — the agent serves the one message that is pending.
* `Sound.step` — every step of a caller, the agent, the reader or the link keeps the invariant.
* `Sound.correlates` — what callers may rely on follows from it.
-/

namespace ScriptDebugger.Session

open Wire (DebuggerMessage HostMessage Decoder TornFrom IsTorn StandsFor isTorn_nil)
open Debug (Agent IsReply)

/-! ## The invariant -/

section

variable {σ ι : Type} {f : Frontier}

/-- Where the bytes of what is pending are, if the agent's decoder and the session's have read all
that is on its way to them. -/
inductive Carried (f : Frontier) (toAgent toSession : Decoder) (writable : Bool)
    (inbox : List DebuggerMessage) (gone : Prop) : Pending ι → Prop
  | quiet {torn : List UInt8} (htorn : IsTorn torn) (hnone : writable = true → torn = [])
      (hup : StandsFor HostMessage.decode? toAgent torn)
      (hdown : StandsFor DebuggerMessage.decode? toSession []) (hinbox : inbox = []) :
      Carried f toAgent toSession writable inbox gone .quiet
  | asked {i : ι} {op : Operation} {q : Inquiry op.Answer} (hq : op.inquiry? f = .ok q)
      (hsize : q.message.encode.length < UInt64.size)
      (hup : StandsFor HostMessage.decode? toAgent q.message.encode)
      (hdown : StandsFor DebuggerMessage.decode? toSession []) (hinbox : inbox = []) :
      Carried f toAgent toSession writable inbox gone (.asked i op)
  | sent {i : ι} {op : Operation} {reply : DebuggerMessage}
      (hup : StandsFor HostMessage.decode? toAgent []) (hfits : reply.Fits)
      (hsize : reply.encode.length < UInt64.size)
      (hdown : StandsFor DebuggerMessage.decode? toSession reply.encode) (hinbox : inbox = []) :
      Carried f toAgent toSession writable inbox gone (.answered i op reply)
  | delivered {i : ι} {op : Operation} {reply : DebuggerMessage}
      (hup : StandsFor HostMessage.decode? toAgent [])
      (hdown : StandsFor DebuggerMessage.decode? toSession []) (hinbox : inbox = [reply]) :
      Carried f toAgent toSession writable inbox gone (.answered i op reply)
  | silent {i : ι} {op : Operation} {torn : List UInt8} (hgone : gone) (htorn : IsTorn torn)
      (hdown : StandsFor DebuggerMessage.decode? toSession torn) (hinbox : inbox = []) :
      Carried f toAgent toSession writable inbox gone (.silent i op)

/-- Decoders that stand for the same bytes carry the same. -/
theorem Carried.congr {toAgent toAgent' toSession toSession' : Decoder} {writable : Bool}
    {inbox : List DebuggerMessage} {gone gone' : Prop} {pending : Pending ι}
    (h : Carried f toAgent toSession writable inbox gone pending)
    (hup : ∀ held, StandsFor HostMessage.decode? toAgent held →
      StandsFor HostMessage.decode? toAgent' held)
    (hdown : ∀ held, StandsFor DebuggerMessage.decode? toSession held →
      StandsFor DebuggerMessage.decode? toSession' held)
    (hgone : gone → gone') : Carried f toAgent' toSession' writable inbox gone' pending := by
  cases h with
  | quiet htorn hnone h h' hinbox => exact .quiet htorn hnone (hup _ h) (hdown _ h') hinbox
  | asked hq hsize h h' hinbox => exact .asked hq hsize (hup _ h) (hdown _ h') hinbox
  | sent h hfits hsize h' hinbox => exact .sent (hup _ h) hfits hsize (hdown _ h') hinbox
  | delivered h h' hinbox => exact .delivered (hup _ h) (hdown _ h') hinbox
  | silent h htorn h' hinbox => exact .silent (hgone h) htorn (hdown _ h') hinbox

/-- The state of a session and its agent in which requests and replies correlate. -/
structure Sound (f : Frontier) (s : System σ ι) : Prop where
  locked : Locked s.mailbox.busy s.stages
  prepared : ∀ i, Prepared f s.history i (s.stages i)
  loaded : ¬s.agent.IsGone → s.agent.context.stepper.loaded = true
  pending : ∃ pending, Orderly f s.history pending ∧
    Attended pending s.stages s.mailbox.closed ∧
    Carried f (s.agent.decoder.extend s.up) (s.decoder.extend s.down) s.writable s.mailbox.inbox
      s.agent.IsGone pending
  accounted : ∀ i op outcome, .returned i op outcome ∈ s.history →
    Accounted f s.history i op outcome
  stops : s.notices.filterMap Notice.cause? = s.history.filterMap Entry.cause?

/-- A notice of a stop is raised where a successful command returns, and nowhere else. -/
theorem cause_raised (i : ι) {op : Operation} {q : Inquiry op.Answer} (hq : op.inquiry? f = .ok q)
    (outcome : Option (Except Failure op.Answer)) :
    (raised q outcome).filterMap Notice.cause? =
      [Entry.returned i op outcome].filterMap Entry.cause? := by
  have hsilent (hnotice : ∀ answer, q.notice answer = none) : raised q outcome = [] := by
    rcases outcome with _ | failure | answer
    · rfl
    · rfl
    · exact congrArg Option.toList (hnotice answer)
  cases op with
  | resume command =>
      obtain rfl := Except.ok.inj hq
      rcases outcome with _ | failure | answer <;> rfl
  | setVariable reference name literal =>
      obtain ⟨value, -, rfl⟩ := of_assignText_ok hq
      rw [hsilent fun _ => rfl]
      rfl
  | stack | scopes | variablesBehind | locations | setBreakpoint | removeBreakpoint =>
      obtain rfl := Except.ok.inj hq
      rw [hsilent fun _ => rfl]
      rfl

end

namespace Sound

section

variable {σ ι : Type} {f : Frontier} {s : System σ ι} {i : ι} {op : Operation}

/-! ### Histories -/

/-- An entry that is no return asks for no account. -/
theorem accounted_log (h : Sound f s) {entry : Entry ι}
    (hentry : ∀ i op outcome, entry ≠ .returned i op outcome) :
    ∀ i op outcome, .returned i op outcome ∈ s.history ++ [entry] →
      Accounted f (s.history ++ [entry]) i op outcome := by
  intro i op outcome hmem
  rcases List.mem_append.1 hmem with hold | hnew
  · exact (h.accounted i op outcome hold).mono [entry]
  · exact absurd (List.mem_singleton.1 hnew).symm (hentry i op outcome)

/-- An entry that is no successful command tells no stop. -/
theorem stops_log (h : Sound f s) {entry : Entry ι} (hentry : entry.cause? = none) :
    s.notices.filterMap Notice.cause? = (s.history ++ [entry]).filterMap Entry.cause? := by
  rw [List.filterMap_append, h.stops, List.filterMap_cons_none hentry]
  exact (List.append_nil _).symm

/-! ### Callers -/

/-- Nothing is pending where a caller is about to write. -/
theorem quiet_of_sending (h : Sound f s) (hstage : s.stages i = .sending op) {pending : Pending ι}
    (hattended : Attended pending s.stages s.mailbox.closed) : pending = .quiet := by
  have hnobody (j : ι) (op' : Operation) : s.stages j ≠ .waiting op' := by
    intro hwaiting
    obtain rfl := h.locked.eq_of_holds (i := i) (j := j) (by simp [hstage]) (by simp [hwaiting])
    rw [hstage] at hwaiting
    cases hwaiting
  cases pending with
  | quiet => rfl
  | asked j op' | answered j op' | silent j op' =>
      rcases hattended.present j op' rfl with hthere | ⟨-, hnosender⟩
      · exact absurd hthere (hnobody j op')
      · exact absurd hstage (hnosender i op)

variable [DecidableEq ι]

theorem prepared_put (h : Sound f s) {stage : Stage} (hstage : Prepared f s.history i stage) :
    ∀ j, Prepared f s.history j (Function.update s.stages i stage j) := by
  rw [Function.forall_update_iff s.stages fun j st => Prepared f s.history j st]
  exact ⟨hstage, fun j _ => h.prepared j⟩

theorem prepared_log (h : Sound f s) (entry : Entry ι) {stage : Stage}
    (hstage : Prepared f (s.history ++ [entry]) i stage) :
    ∀ j, Prepared f (s.history ++ [entry]) j (Function.update s.stages i stage j) := by
  rw [Function.forall_update_iff s.stages fun j st => Prepared f (s.history ++ [entry]) j st]
  exact ⟨hstage, fun j _ => (h.prepared j).mono [entry]⟩

theorem issue (h : Sound f s) (hstage : s.stages i = .idle) : Sound f (s.put i (.claiming op)) := by
  obtain ⟨pending, horderly, hattended, hcarried⟩ := h.pending
  have hput : Attended pending (Function.update s.stages i (.claiming op)) s.mailbox.closed :=
    hattended.put (by rw [hstage]; nofun) nofun nofun
  exact
    { h with
      locked := h.locked.keep (by simp [hstage])
      prepared := h.prepared_put trivial
      pending := ⟨pending, horderly, hput, hcarried⟩ }

/-- A caller that does not hold the session returns, and raises notices. -/
theorem finish (h : Sound f s) (hfree : ¬(s.stages i).Holds)
    {outcome : Option (Except Failure op.Answer)} (haccounted : Accounted f s.history i op outcome)
    {notices : List Notice}
    (hcause : notices.filterMap Notice.cause? =
      [Entry.returned i op outcome].filterMap Entry.cause?) :
    Sound f ({ s with notices := s.notices ++ notices }.finish i op outcome) := by
  obtain ⟨pending, horderly, hattended, hcarried⟩ := h.pending
  have hbefore (op' : Operation) : s.stages i ≠ .waiting op' := by
    intro hwaiting
    rw [hwaiting] at hfree
    exact hfree (Stage.holds_waiting op')
  exact
    { locked := h.locked.keep (by simp [hfree])
      prepared := h.prepared_log _ trivial
      loaded := h.loaded
      pending := ⟨pending, horderly.returned i op outcome, hattended.put hbefore nofun nofun,
        hcarried⟩
      accounted := by
        intro j op' outcome' hmem
        rcases List.mem_append.1 hmem with hold | hnew
        · exact (h.accounted j op' outcome' hold).mono _
        · cases List.mem_singleton.1 hnew
          exact haccounted.mono _
      stops := by
        show (s.notices ++ notices).filterMap _ = (s.history ++ [_]).filterMap _
        rw [List.filterMap_append, List.filterMap_append, h.stops, hcause] }

/-- A claim is granted where nothing is pending. -/
theorem claim (h : Sound f s) {q : Inquiry op.Answer} (hq : op.inquiry? f = .ok q)
    {mailbox : Mailbox} (hclaim : s.mailbox.claim q.waitsIdle = (mailbox, .granted)) :
    Sound f ({ s with mailbox }.put i (.sending op)) := by
  obtain ⟨hclosed, hbusy, rfl⟩ := Mailbox.of_claim_granted hclaim
  obtain ⟨pending, horderly, hattended, hcarried⟩ := h.pending
  have hlocked := h.locked
  rw [hbusy] at hlocked
  have hfree (j : ι) : ¬(s.stages j).Holds := fun hholds => by
    cases hlocked.busy_iff.2 ⟨j, hholds⟩
  have hnobody (j : ι) (op' : Operation) : s.stages j ≠ .waiting op' := by
    intro hwaiting
    exact hfree j (by simp [hwaiting])
  rw [hclosed] at hattended
  obtain rfl := hattended.quiet hnobody
  have hstill : ∀ j op', Function.update s.stages i (.sending op) j ≠ .waiting op' := by
    rw [Function.forall_update_iff s.stages fun _ st => ∀ op', st ≠ .waiting op']
    exact ⟨nofun, fun j _ => hnobody j⟩
  exact
    { h with
      locked := hlocked.claim (Stage.holds_sending op)
      prepared := h.prepared_put ⟨q, hq⟩
      pending := ⟨.quiet, horderly, attended_quiet hstill, hcarried⟩ }

/-- A caller writes its message, which is the only one on its way then. -/
theorem send (h : Sound f s) {q : Inquiry op.Answer} (hstage : s.stages i = .sending op)
    (hq : op.inquiry? f = .ok q) (hwritable : s.writable = true)
    (hsize : q.message.encode.length < UInt64.size) :
    Sound f
      (({ s with up := s.up ++ q.message.encode }.log (.asked i op)).put i (.waiting op)) := by
  obtain ⟨pending, horderly, hattended, hcarried⟩ := h.pending
  obtain rfl := h.quiet_of_sending hstage hattended
  obtain ⟨-, hnone, hup, hdown, hinbox⟩ := hcarried
  obtain rfl := hnone hwritable
  have hpresent : ∀ j op', (Pending.asked i op).caller? = some (j, op') →
      Function.update s.stages i (.waiting op) j = .waiting op' := by
    intro j op' hsame
    obtain ⟨rfl, rfl⟩ := Prod.mk.inj (Option.some.inj hsame)
    exact Function.update_self i _ s.stages
  have hwaiting : ∀ j op', Function.update s.stages i (.waiting op) j = .waiting op' →
      (Pending.asked i op).caller? = some (j, op') := by
    refine h.locked.alone
      (P := fun j st => ∀ op', st = .waiting op' → (Pending.asked i op).caller? = some (j, op'))
      (by simp [hstage]) ?_ ?_
    · rintro op' ⟨⟩
      rfl
    · rintro j st hfree op' rfl
      exact absurd (Stage.holds_waiting op') hfree
  exact
    { locked := h.locked.keep (by simp [hstage])
      prepared := h.prepared_log _ ⟨q, hq⟩
      loaded := h.loaded
      pending := ⟨.asked i op, horderly.asked i op,
        ⟨hwaiting, fun j op' hsame => .inl (hpresent j op' hsame)⟩,
        .asked hq hsize hup.extend_append hdown hinbox⟩
      accounted := h.accounted_log nofun
      stops := h.stops_log rfl }

/-- A caller fails to write its message. -/
theorem breakOff (h : Sound f s) {q : Inquiry op.Answer} (hstage : s.stages i = .sending op)
    (hq : op.inquiry? f = .ok q) {torn : List UInt8}
    (htorn : torn = [] ∨ s.writable = true ∧ TornFrom q.message.encode torn) :
    Sound f ({ s with up := s.up ++ torn, intact := false, writable := false }.put i
      (.releasing op .unsent)) := by
  obtain ⟨pending, horderly, hattended, hcarried⟩ := h.pending
  obtain rfl := h.quiet_of_sending hstage hattended
  obtain ⟨hold, hbefore, hup, hdown, hinbox⟩ := hcarried
  rename_i before
  have hheld : IsTorn (before ++ torn) := by
    rcases htorn with rfl | ⟨hwritable, htorn⟩
    · rw [List.append_nil]
      exact hold
    · rw [hbefore hwritable]
      exact ⟨_, htorn⟩
  exact
    { h with
      locked := h.locked.keep (by simp [hstage])
      prepared := h.prepared_put ⟨q, hq, nofun⟩
      pending := ⟨.quiet, horderly, hattended.put (by rw [hstage]; nofun) nofun nofun,
        .quiet hheld nofun hup.extend_append hdown hinbox⟩ }

/-- A caller that waits takes the reply to what it asked itself. -/
theorem take (h : Sound f s) (hstage : s.stages i = .waiting op) {mailbox : Mailbox}
    {reply : DebuggerMessage} (htake : s.mailbox.take = (mailbox, .reply reply)) :
    Sound f (({ s with mailbox }.log (.took i op reply)).put i (.releasing op (.reply reply))) := by
  obtain ⟨hinbox, hbusy, hclosed⟩ := Mailbox.of_take_reply htake
  obtain ⟨pending, horderly, hattended, hcarried⟩ := h.pending
  have hcaller := hattended.waiting i op hstage
  have hnobody : ∀ j op',
      Function.update s.stages i (.releasing op (.reply reply)) j ≠ .waiting op' := by
    refine h.locked.alone (P := fun _ st => ∀ op', st ≠ .waiting op') (by simp [hstage]) nofun ?_
    rintro j st hfree op' rfl
    exact hfree (Stage.holds_waiting op')
  cases hcarried with
  | quiet _ _ _ _ hempty | asked _ _ _ _ hempty | sent _ _ _ _ hempty | silent _ _ _ hempty =>
      rw [hempty] at hinbox
      cases hinbox
  | delivered hup hdown hone =>
      obtain ⟨rfl, hrest⟩ := List.cons.inj (hone.symm.trans hinbox)
      obtain ⟨rfl, rfl⟩ := Prod.mk.inj (Option.some.inj hcaller)
      obtain ⟨q, hq, haccepts⟩ := horderly.accepts
      exact
        { locked := by
            show Locked mailbox.busy _
            rw [hbusy]
            exact h.locked.keep (by simp [hstage])
          prepared := h.prepared_log _ ⟨q, hq, fun reply hsame => by
            cases hsame
            exact ⟨List.mem_append_right _ (List.mem_singleton.2 rfl), haccepts⟩⟩
          loaded := h.loaded
          pending := ⟨.quiet, horderly.took, attended_quiet hnobody,
            .quiet isTorn_nil (fun _ => rfl) hup hdown hrest.symm⟩
          accounted := h.accounted_log nofun
          stops := h.stops_log rfl }

/-- A caller that waits finds that the connection has ended. -/
theorem giveUp (h : Sound f s) (hstage : s.stages i = .waiting op)
    (hclosed : s.mailbox.closed = true) : Sound f (s.put i (.releasing op .closed)) := by
  obtain ⟨pending, horderly, hattended, hcarried⟩ := h.pending
  have hnosender :
      ∀ j op', Function.update s.stages i (.releasing op .closed) j ≠ .sending op' := by
    refine h.locked.alone (P := fun _ st => ∀ op', st ≠ .sending op') (by simp [hstage]) nofun ?_
    rintro j st hfree op' rfl
    exact hfree (Stage.holds_sending op')
  have hwaiting : ∀ j op', Function.update s.stages i (.releasing op .closed) j = .waiting op' →
      pending.caller? = some (j, op') := by
    rw [Function.forall_update_iff s.stages fun j st =>
      ∀ op', st = .waiting op' → pending.caller? = some (j, op')]
    exact ⟨nofun, fun j _ => hattended.waiting j⟩
  have hq : ∃ q, op.inquiry? f = .ok q := by
    have hprepared := h.prepared i
    rwa [hstage] at hprepared
  obtain ⟨q, hq⟩ := hq
  exact
    { h with
      locked := h.locked.keep (by simp [hstage])
      prepared := h.prepared_put ⟨q, hq, nofun⟩
      pending := ⟨pending, horderly, ⟨hwaiting, fun _ _ _ => .inr ⟨hclosed, hnosender⟩⟩, hcarried⟩ }

/-- A caller gives the session back. -/
theorem release (h : Sound f s) {receipt : Receipt} (hstage : s.stages i = .releasing op receipt) :
    Sound f ({ s with mailbox := s.mailbox.release }.put i (.concluding op receipt)) := by
  obtain ⟨pending, horderly, hattended, hcarried⟩ := h.pending
  have hprepared := h.prepared i
  rw [hstage] at hprepared
  exact
    { h with
      locked := h.locked.release (by simp [hstage]) (Stage.not_holds_concluding op receipt)
      prepared := h.prepared_put hprepared
      pending := ⟨pending, horderly, hattended.put (by rw [hstage]; nofun) nofun nofun, hcarried⟩ }

/-- A caller that holds the session can go on, unless it waits for a reply. -/
theorem proceeds (h : Sound f s) {i : ι} (hholds : (s.stages i).Holds) :
    (∃ u, CallerStep f i s u) ∨
      (∃ op, s.stages i = .waiting op) ∧ s.mailbox.inbox = [] ∧ s.mailbox.closed = false := by
  have hprepared := h.prepared i
  cases hstage : s.stages i with
  | idle | claiming | concluding =>
      rw [hstage] at hholds
      exact absurd hholds (by simp)
  | sending op =>
      rw [hstage] at hprepared
      obtain ⟨q, hq⟩ := hprepared
      exact .inl ⟨_, .breakOff hstage hq (.inl rfl)⟩
  | waiting op =>
      rcases htake : s.mailbox.take with ⟨mailbox, pickup⟩
      cases pickup with
      | reply reply => exact .inl ⟨_, .take hstage htake⟩
      | closed => exact .inl ⟨_, .giveUp hstage htake⟩
      | wait => exact .inr ⟨⟨op, rfl⟩, Mailbox.of_take_wait htake⟩
  | releasing op receipt => exact .inl ⟨_, .release hstage⟩

/-- Every step of a caller keeps the invariant, if its message has a length of 64 bits. -/
theorem callerStep {t : System σ ι} (h : Sound f s) (hstep : CallerStep f i s t)
    (hfits : ∀ entry ∈ t.history, entry.Fits f) : Sound f t := by
  have hquiet {op : Operation} {failure : Failure} (hstage : s.stages i = .claiming op)
      (hfailure : failure = .busy ∨ failure = .closed ∨ op.inquiry? f = .error failure) :
      Sound f (s.finish i op (some (.error failure))) := by
    have hcause : ([] : List Notice).filterMap Notice.cause? =
        [Entry.returned i op (some (.error failure))].filterMap Entry.cause? := by
      cases op <;> rfl
    have hnext := h.finish (by simp [hstage]) (.failed hfailure) hcause
    rwa [List.append_nil] at hnext
  cases hstep with
  | issue op hstage => exact h.issue hstage
  | refuse hstage hq => exact hquiet hstage (.inr (.inr hq))
  | claim hstage hq hclaim => exact h.claim hq hclaim
  | turnAway hstage => exact hquiet hstage (.inl rfl)
  | shutOut hstage => exact hquiet hstage (.inr (.inl rfl))
  | send hstage hq hwritable =>
      have hentry := hfits _ (List.mem_append_right _ (List.mem_singleton.2 rfl))
      exact h.send hstage hq hwritable (hentry _ hq)
  | breakOff hstage hq htorn => exact h.breakOff hstage hq htorn
  | take hstage htake => exact h.take hstage htake
  | giveUp hstage htake => exact h.giveUp hstage (Mailbox.of_take_closed htake).2
  | release hstage => exact h.release hstage
  | conclude hstage hq =>
      have hprepared := h.prepared i
      rw [hstage] at hprepared
      exact h.finish (by simp [hstage]) (hprepared.accounted hq) (cause_raised i hq _)

end

section

variable {σ ι : Type} {f : Frontier} {s t : System σ ι}

/-! ### The reader -/

theorem deliver (h : Sound f s) {decoder : Decoder} {message : DebuggerMessage}
    (hnext : s.decoder.nextMessage DebuggerMessage.decode? = (decoder, some message)) :
    Sound f { s with decoder, mailbox := s.mailbox.deliver [message] } := by
  obtain ⟨pending, horderly, hattended, hcarried⟩ := h.pending
  cases hcarried with
  | quiet _ _ _ hdown => exact absurd hnext (hdown.not_handsOut_torn isTorn_nil)
  | asked _ _ _ hdown => exact absurd hnext (hdown.not_handsOut_torn isTorn_nil)
  | delivered _ hdown => exact absurd hnext (hdown.not_handsOut_torn isTorn_nil)
  | silent _ htorn hdown => exact absurd hnext (hdown.not_handsOut_torn htorn)
  | sent hup hfits hsize hdown hinbox =>
      have hone : s.mailbox.inbox ++ [message] = [message] := by rw [hinbox, List.nil_append]
      obtain ⟨hread, hempty⟩ := hdown.handsOut_frame hsize hnext
      rw [DebuggerMessage.decode?_payload hfits] at hread
      obtain rfl := Option.some.inj hread
      exact { h with pending := ⟨_, horderly, hattended, .delivered hup hempty hone⟩ }

theorem readerStep (h : Sound f s) (hstep : ReaderStep s t) : Sound f t := by
  cases hstep with
  | read hopen hnext hdown =>
      obtain ⟨pending, horderly, hattended, hcarried⟩ := h.pending
      rw [hdown] at hcarried
      exact
        { h with
          pending := ⟨pending, horderly, hattended,
            hcarried.congr (fun _ => id) (fun _ hheld => hheld.refill hnext) id⟩ }
  | deliver hopen hnext => exact h.deliver hnext
  | finish hopen hnext hend =>
      obtain ⟨pending, horderly, hattended, hcarried⟩ := h.pending
      have hstill : Attended pending s.stages true :=
        ⟨hattended.waiting, fun j op hcaller => (hattended.present j op hcaller).imp_right
          fun ⟨_, hnosender⟩ => ⟨rfl, hnosender⟩⟩
      exact
        { h with
          pending := ⟨pending, horderly, hstill, hcarried⟩
          stops := by
            show (s.notices ++ [Notice.ended]).filterMap _ = _
            rw [List.filterMap_append, ← h.stops]
            exact List.append_nil _ }

variable [Engine σ]

/-! ### The agent -/

/-- The agent serves the message that is pending, and answers it with one reply or never. -/
theorem serve (h : Sound f s) (hf : f.mapper = .identity) {decoder : Decoder}
    {message : HostMessage} {fuel : Nat} {agent : Agent σ} {sent : List DebuggerMessage}
    {unsent : DebuggerMessage} {torn : List UInt8} (hserving : ¬s.agent.IsGone)
    (hnext : s.agent.decoder.nextMessage HostMessage.decode? = (decoder, some message))
    (hreceive : { s.agent with decoder }.receive fuel message = some (agent, sent))
    (htorn : torn = [] ∨ agent.connected = false ∧ TornFrom unsent.encode torn)
    (hfits : (Entry.served message sent : Entry ι).Fits f) :
    Sound f
      ({ s with
        agent
        down := s.down ++ bytesOf sent ++ torn
        intact := s.intact && agent.connected }.log (.served message sent)) := by
  obtain ⟨pending, horderly, hattended, hcarried⟩ := h.pending
  have hloaded := h.loaded hserving
  have hsettles := Agent.settles_receive hreceive
  have hdecoder : agent.decoder = decoder := hsettles.decoder
  have hrest : ∀ pending', Orderly f (s.history ++ [.served message sent]) pending' →
      Attended pending' s.stages s.mailbox.closed →
      Carried f (agent.decoder.extend s.up) (s.decoder.extend (s.down ++ bytesOf sent ++ torn))
        s.writable s.mailbox.inbox agent.IsGone pending' →
      Sound f
        ({ s with
          agent
          down := s.down ++ bytesOf sent ++ torn
          intact := s.intact && agent.connected }.log (.served message sent)) :=
    fun pending' horderly' hattended' hcarried' =>
      { locked := h.locked
        prepared := fun j => (h.prepared j).mono _
        loaded := fun _ => hsettles.kept hloaded
        pending := ⟨pending', horderly', hattended', hcarried'⟩
        accounted := h.accounted_log nofun
        stops := h.stops_log rfl }
  cases hcarried with
  | quiet htorn' _ hup => exact absurd hnext (hup.not_handsOut_torn htorn')
  | sent hup => exact absurd hnext (hup.not_handsOut_torn isTorn_nil)
  | delivered hup => exact absurd hnext (hup.not_handsOut_torn isTorn_nil)
  | silent hgone => exact absurd hgone hserving
  | asked hq hsize hup hdown hinbox =>
      obtain ⟨hread, hempty⟩ := hup.handsOut_frame hsize hnext
      obtain ⟨m, hheard⟩ := Operation.exists_heardAs hf hq
      obtain rfl : m = message := Option.some.inj (hheard.decoded.symm.trans hread)
      rw [← hdecoder] at hempty
      have hreaction := hsettles.reaction
      cases hreaction with
      | replied hkind hconnected =>
          rename_i reply
          obtain ⟨hreply, hlength⟩ := hfits reply (List.mem_singleton.2 rfl)
          obtain rfl : torn = [] := htorn.resolve_right fun hbroken => by
            rw [hbroken.1] at hconnected
            cases hconnected
          have hnot (path : String) : reply ≠ .programLoaded path := by
            rintro rfl
            have hfirst := (hsettles.first path (List.mem_singleton.2 rfl)).1
            rw [show s.agent.context.stepper.loaded = false from hfirst] at hloaded
            cases hloaded
          have hback : StandsFor DebuggerMessage.decode?
              (s.decoder.extend (s.down ++ bytesOf [reply] ++ [])) reply.encode := by
            rw [List.append_nil, bytesOf_singleton]
            exact hdown.extend_append
          exact hrest _ (horderly.served hq hheard hkind (hheard.accepts reply hkind hnot))
            ⟨hattended.waiting, hattended.present⟩ (.sent hempty hreply hlength hback hinbox)
      | silent hsilent =>
          have hgone : agent.IsGone := hsilent.resolve_left hheard.asks
          have hpart : IsTorn torn := by
            rcases htorn with rfl | ⟨-, htorn⟩
            · exact isTorn_nil
            · exact ⟨_, htorn⟩
          have hback : StandsFor DebuggerMessage.decode?
              (s.decoder.extend (s.down ++ bytesOf [] ++ torn)) torn := by
            rw [List.append_assoc]
            exact hdown.extend_append
          exact hrest _ (horderly.passedOver hq hheard) ⟨hattended.waiting, hattended.present⟩
            (.silent hgone hpart hback hinbox)

theorem agentStep (h : Sound f s) (hf : f.mapper = .identity) (hstep : AgentStep s t)
    (hfits : ∀ entry ∈ t.history, entry.Fits f) : Sound f t := by
  cases hstep with
  | read hserving hnext hup =>
      obtain ⟨pending, horderly, hattended, hcarried⟩ := h.pending
      rw [hup] at hcarried
      exact
        { h with
          pending := ⟨pending, horderly, hattended,
            hcarried.congr (fun _ hheld => hheld.refill hnext) (fun _ => id) id⟩ }
  | serve hserving hnext hreceive htorn =>
      have hentry := hfits _ (List.mem_append_right _ (List.mem_singleton.2 rfl))
      exact h.serve hf hserving hnext hreceive htorn hentry
  | hangUp hgone hhangUp =>
      obtain ⟨hlast, hdecoder⟩ := Agent.hangUp_isGone hhangUp
      obtain ⟨pending, horderly, hattended, hcarried⟩ := h.pending
      rw [← hdecoder] at hcarried
      exact
        { h with
          loaded := fun hserving => absurd hlast hserving
          pending := ⟨pending, horderly, hattended,
            hcarried.congr (fun _ => id) (fun _ => id) fun _ => hlast⟩ }

/-! ### Runs -/

variable [DecidableEq ι]

/-- Every step keeps the invariant, if what is written fits. -/
theorem step (h : Sound f s) (hf : f.mapper = .identity) {actor : Actor ι}
    (hstep : Step f actor s t) (hfits : ∀ entry ∈ t.history, entry.Fits f) : Sound f t := by
  cases hstep with
  | caller hcaller => exact h.callerStep hcaller hfits
  | agent hagent => exact h.agentStep hf hagent hfits
  | reader hreader => exact h.readerStep hreader
  | cut capacity => exact { h with }

/-- So does every run. -/
theorem reaches (h : Sound f s) (hf : f.mapper = .identity) (hreaches : Reaches f s t)
    (hfits : ∀ entry ∈ t.history, entry.Fits f) : Sound f t := by
  induction hreaches with
  | refl => exact h
  | tail _ hlast ih =>
      obtain ⟨actor, hlast⟩ := hlast
      obtain ⟨more, hmore⟩ := hlast.history
      refine (ih fun entry hentry => hfits entry ?_).step hf hlast hfits
      rw [hmore]
      exact List.mem_append_left _ hentry

/-! ### What follows -/

/-- What callers may rely on. -/
theorem correlates (h : Sound f s) : Correlates f s := by
  obtain ⟨pending, horderly, -, hcarried⟩ := h.pending
  exact
    { orderly := ⟨pending, horderly⟩
      unanswered := horderly.countP_asked_le
      inbox := by
        cases hcarried with
        | quiet _ _ _ _ hinbox | asked _ _ _ _ hinbox | sent _ _ _ _ hinbox
        | silent _ _ _ hinbox | delivered _ _ hinbox => simp [hinbox]
      busy := h.locked.busy_iff
      exclusive := fun i j => h.locked.eq_of_holds
      accounted := h.accounted
      expected := fun i op outcome hmem => (h.accounted i op (some outcome) hmem).expected
      turnedAway := fun i op q => callerStep_iff_of_busy
      proceeds := fun i => h.proceeds
      releases := fun i u => CallerStep.releases
      undisturbed := fun i actor u => Step.undisturbed
      stops := h.stops }

end

end Sound

end ScriptDebugger.Session
