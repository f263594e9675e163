import ScriptDebugger.Proofs.Session.Exchange
/-!
# The callers of a session

One caller at a time is between its claim and its release. The caller who asked for what is pending
still waits for it, or else the connection has ended and nobody is about to write. Each caller has
at its stage what it needs to go on.

## Main results

* `Locked.eq_of_holds`, `Locked.alone` — there is one caller that holds the session.
* `Attended.quiet` — where nobody waits on an open session, nothing is pending.
* `Orderly.countP_asked_le`, `Accounted.expected` — what histories say.
-/

namespace ScriptDebugger.Session

open Wire (DebuggerMessage HostMessage)

section

variable {ι : Type} {f : Frontier}

/-- The caller whose operation is pending. -/
def Pending.caller? : Pending ι → Option (ι × Operation)
  | .quiet => none
  | .asked i op | .answered i op _ | .silent i op => some (i, op)

/-- The caller whose operation is pending waits, and no other one does; or the connection has ended,
and nobody is about to write. -/
structure Attended (pending : Pending ι) (stages : ι → Stage) (closed : Bool) : Prop where
  waiting : ∀ i op, stages i = .waiting op → pending.caller? = some (i, op)
  present : ∀ i op, pending.caller? = some (i, op) →
    stages i = .waiting op ∨ closed = true ∧ ∀ j op', stages j ≠ .sending op'

/-- The session is claimed by the one caller that is between its claim and its release. -/
def Locked (busy : Bool) (stages : ι → Stage) : Prop :=
  ∃ holder : Option ι, busy = holder.isSome ∧ ∀ i, (stages i).Holds ↔ holder = some i

/-- What a caller has at its stage: an inquiry, and behind a reply the entry of having taken it. -/
def Prepared (f : Frontier) (history : List (Entry ι)) (i : ι) : Stage → Prop
  | .idle | .claiming _ => True
  | .sending op | .waiting op => ∃ q, op.inquiry? f = .ok q
  | .releasing op receipt | .concluding op receipt => ∃ q, op.inquiry? f = .ok q ∧
    ∀ reply, receipt = .reply reply → .took i op reply ∈ history ∧ q.Accepts reply

theorem Prepared.mono {history : List (Entry ι)} {i : ι} {stage : Stage}
    (h : Prepared f history i stage) (more : List (Entry ι)) :
    Prepared f (history ++ more) i stage := by
  cases stage with
  | idle | claiming => trivial
  | sending | waiting => exact h
  | releasing | concluding =>
      obtain ⟨q, hq, hreceipt⟩ := h
      refine ⟨q, hq, fun reply hreply => ?_⟩
      exact ⟨List.mem_append_left _ (hreceipt reply hreply).1, (hreceipt reply hreply).2⟩

theorem Accounted.mono {history : List (Entry ι)} {i : ι} {op : Operation}
    {outcome : Option (Except Failure op.Answer)} (h : Accounted f history i op outcome)
    (more : List (Entry ι)) : Accounted f (history ++ more) i op outcome := by
  cases h with
  | unsent => exact .unsent
  | failed h => exact .failed h
  | answered hq htook haccepts => exact .answered hq (List.mem_append_left _ htook) haccepts

/-- The outcome of a receipt is accounted for. -/
theorem Prepared.accounted {history : List (Entry ι)} {i : ι} {op : Operation} {receipt : Receipt}
    {q : Inquiry op.Answer} (h : Prepared f history i (.concluding op receipt))
    (hq : op.inquiry? f = .ok q) : Accounted f history i op (receipt.outcome q) := by
  obtain ⟨q', hq', hreceipt⟩ := h
  obtain rfl := Except.ok.inj (hq'.symm.trans hq)
  cases receipt with
  | unsent => exact .unsent
  | closed => exact .failed (.inr (.inl rfl))
  | reply message =>
      obtain ⟨htook, haccepts⟩ := hreceipt message rfl
      exact .answered hq htook haccepts

/-! ### Histories -/

/-- The caller of an answered operation understands the reply. -/
theorem Orderly.accepts {history : List (Entry ι)} {i : ι} {op : Operation}
    {reply : DebuggerMessage} (h : Orderly f history (.answered i op reply)) :
    ∃ q, op.inquiry? f = .ok q ∧ q.Accepts reply := by
  generalize hpending : Pending.answered i op reply = pending at h
  induction h with
  | served _ hq _ _ haccepts =>
      cases hpending
      exact ⟨_, hq, haccepts⟩
  | returned _ _ _ _ ih => exact ih hpending
  | _ => cases hpending

/-- One request at most has no reply that was taken. -/
theorem Orderly.countP_asked_le {history : List (Entry ι)} {pending : Pending ι}
    (h : Orderly f history pending) :
    history.countP Entry.isAsked ≤ history.countP Entry.isTook + 1 := by
  have hcount : history.countP Entry.isAsked =
      history.countP Entry.isTook + pending.caller?.toList.length := by
    induction h with
    | start => rfl
    | asked _ _ _ ih | served _ _ _ _ _ ih | passedOver _ _ _ ih | took _ ih
    | returned _ _ _ _ ih =>
        simp_all [List.countP_append, Entry.isAsked, Entry.isTook, Pending.caller?]
  rw [hcount]
  cases pending <;> simp [Pending.caller?]

/-- The outcome of an operation is never that its reply was of another kind. -/
theorem Accounted.expected {history : List (Entry ι)} {i : ι} {op : Operation}
    {outcome : Except Failure op.Answer} (h : Accounted f history i op (some outcome))
    (expected got : String) : outcome ≠ .error (.unexpectedReply expected got) := by
  rintro rfl
  generalize hsame : some (Except.error (Failure.unexpectedReply expected got)) = result at h
  cases h with
  | unsent => cases hsame
  | failed hfailure =>
      cases hsame
      rcases hfailure with hbusy | hclosed | hrefused
      · cases hbusy
      · cases hclosed
      · cases op with
        | setVariable reference name literal =>
            cases of_assignText_error hrefused
        | _ => cases hrefused
  | answered hq htook haccepts =>
      have hinterpret := Option.some.inj hsame
      rcases Inquiry.interpret_of_accepts haccepts with ⟨text, htext⟩ | ⟨answer, hanswer⟩
      · rw [htext] at hinterpret
        cases hinterpret
      · rw [hanswer] at hinterpret
        cases hinterpret

/-! ### Moving one caller -/

variable {stages : ι → Stage} {i : ι} {stage : Stage} {busy closed : Bool} {pending : Pending ι}

/-- There is one caller at a time between its claim and its release. -/
theorem Locked.eq_of_holds (h : Locked busy stages) {j : ι} (hi : (stages i).Holds)
    (hj : (stages j).Holds) : i = j := by
  obtain ⟨holder, -, hholds⟩ := h
  exact Option.some.inj (((hholds i).1 hi).symm.trans ((hholds j).1 hj))

theorem Locked.busy_iff (h : Locked busy stages) : busy = true ↔ ∃ i, (stages i).Holds := by
  obtain ⟨holder, rfl, hholds⟩ := h
  rw [Option.isSome_iff_exists]
  exact exists_congr fun i => (hholds i).symm

theorem attended_quiet (h : ∀ i op, stages i ≠ .waiting op) : Attended .quiet stages closed :=
  ⟨fun i op hwaiting => absurd hwaiting (h i op), nofun⟩

/-- Where the session is open and nobody waits, nothing is pending. -/
theorem Attended.quiet (h : Attended pending stages false)
    (hnobody : ∀ i op, stages i ≠ .waiting op) : pending = .quiet := by
  cases pending with
  | quiet => rfl
  | asked j op | answered j op | silent j op =>
      rcases h.present j op rfl with hthere | ⟨hclosed, -⟩
      · exact absurd hthere (hnobody j op)
      · cases hclosed

variable [DecidableEq ι]

theorem Locked.keep (h : Locked busy stages) (hsame : stage.Holds ↔ (stages i).Holds) :
    Locked busy (Function.update stages i stage) := by
  obtain ⟨holder, hbusy, hholds⟩ := h
  refine ⟨holder, hbusy, ?_⟩
  rw [Function.forall_update_iff stages fun j st => st.Holds ↔ holder = some j]
  exact ⟨hsame.trans (hholds i), fun j _ => hholds j⟩

theorem Locked.claim (h : Locked false stages) (hstage : stage.Holds) :
    Locked true (Function.update stages i stage) := by
  obtain ⟨holder, hbusy, hholds⟩ := h
  obtain rfl : holder = none := Option.not_isSome_iff_eq_none.1 (by rw [← hbusy]; decide)
  refine ⟨some i, rfl, ?_⟩
  rw [Function.forall_update_iff stages fun j st => st.Holds ↔ some i = some j]
  refine ⟨⟨fun _ => rfl, fun _ => hstage⟩, fun j hj => ⟨fun hfree => ?_, fun hsame => ?_⟩⟩
  · cases (hholds j).1 hfree
  · exact absurd (Option.some.inj hsame).symm hj

theorem Locked.release (h : Locked busy stages) (hheld : (stages i).Holds) (hstage : ¬stage.Holds) :
    Locked false (Function.update stages i stage) := by
  refine ⟨none, rfl, ?_⟩
  rw [Function.forall_update_iff stages fun j st => st.Holds ↔ none = some j]
  refine ⟨⟨fun hholds => absurd hholds hstage, nofun⟩, fun j hj => ⟨fun hholds => ?_, nofun⟩⟩
  exact absurd (h.eq_of_holds hholds hheld) hj

/-- What holds of every caller that does not hold the session, and of the one that does, holds of
all. -/
theorem Locked.alone (h : Locked busy stages) (hheld : (stages i).Holds) {P : ι → Stage → Prop}
    (hstage : P i stage) (hfree : ∀ j st, ¬st.Holds → P j st) :
    ∀ j, P j (Function.update stages i stage j) := by
  rw [Function.forall_update_iff stages P]
  refine ⟨hstage, fun j hj => hfree j _ fun hholds => hj ?_⟩
  exact h.eq_of_holds hholds hheld

/-- A caller that neither waits nor begins to leaves it to the others. -/
theorem Attended.put (h : Attended pending stages closed) (hbefore : ∀ op, stages i ≠ .waiting op)
    (hwaiting : ∀ op, stage ≠ .waiting op) (hsending : ∀ op, stage ≠ .sending op) :
    Attended pending (Function.update stages i stage) closed where
  waiting := by
    rw [Function.forall_update_iff stages fun j st =>
      ∀ op, st = .waiting op → pending.caller? = some (j, op)]
    exact ⟨fun op hop => absurd hop (hwaiting op), fun j _ => h.waiting j⟩
  present j op hpending := by
    rcases h.present j op hpending with hthere | ⟨hclosed, hnobody⟩
    · have hj : j ≠ i := by
        rintro rfl
        exact hbefore op hthere
      exact .inl (by rw [Function.update_of_ne hj, hthere])
    · refine .inr ⟨hclosed, ?_⟩
      rw [Function.forall_update_iff stages fun _ st => ∀ op', st ≠ .sending op']
      exact ⟨hsending, fun k _ => hnobody k⟩

end

end ScriptDebugger.Session
