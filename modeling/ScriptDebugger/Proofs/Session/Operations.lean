import ScriptDebugger.Proofs.Debug.Replies
import ScriptDebugger.Proofs.Session.Assignments
/-!
# The operations of a session

What the owner of a session may ask it for, with arguments that are words of their sizes and texts
for new values that leave room for the message around them. Each operation is one inquiry, and the
agent reads of its message what its answer is about: a reply of the kind that the agent's reading
asks for is one that the inquiry understands.

## Main results

* `Inquiry.interpret_of_accepts` — a reply that is understood is an answer or a refusal.
* `Operation.exists_heardAs` — what the agent reads of an operation, and that its reply is
  understood.
-/

namespace ScriptDebugger.Session

open Wire (DebuggerMessage HostMessage StackFrame Scope)
open Debug (IsReply IsToggle)

/-! ## Operations -/

/-- A text for a new value: no JSON text at all, or one that leaves room for the message around
it. -/
structure Literal where
  /-- The text. -/
  text : String
  /-- There are not too many arrays and objects inside one another. -/
  shallow : ∀ value, Json.read? text = some value → value.nesting ≤ Wire.valueDepth

/-- A command that lets the program go on. -/
inductive Command
  /-- To the next breakpoint. -/
  | proceed
  /-- To the next statement of the frame. -/
  | next
  /-- To the next statement of any frame. -/
  | stepIn
  /-- To the caller. -/
  | stepOut
  deriving DecidableEq, Repr

/-- The message of a command. -/
def Command.message : Command → HostMessage
  | .proceed => .proceed
  | .next => .next
  | .stepIn => .stepIn
  | .stepOut => .stepOut

/-- What a session is asked for. -/
inductive Operation
  /-- To let the program go on. -/
  | resume (command : Command)
  /-- Frames of the stack. -/
  | stack (index count : UInt32)
  /-- The groups of variables of a frame. -/
  | scopes (frameId : UInt32)
  /-- The variables behind a reference. -/
  | variablesBehind (reference : UInt32)
  /-- To give a variable a value. -/
  | setVariable (reference : UInt32) (name : String) (literal : Literal)
  /-- The positions on a line at which a breakpoint may stand. -/
  | locations (path : String) (line : UInt32)
  /-- To set a breakpoint. -/
  | setBreakpoint (path : String) (line : UInt32) (column : Option UInt32)
  /-- To remove a breakpoint. -/
  | removeBreakpoint (id : Int64)

namespace Operation

/-- What an operation gives if it succeeds. -/
def Answer : Operation → Type
  | .resume _ => StopCause
  | .stack _ _ => List StackFrame
  | .scopes _ => List Scope
  | .variablesBehind _ => List Wire.Variable
  | .setVariable _ _ _ => Wire.Variable
  | .locations _ _ => List Position
  | .setBreakpoint _ _ _ => PlacedBreakpoint
  | .removeBreakpoint _ => Bool

/-- The inquiry of an operation. There is none for a text that is no value. -/
def inquiry? (f : Frontier) : (op : Operation) → Except Failure (Inquiry op.Answer)
  | .resume command => .ok (Session.resume command.message)
  | .stack index count => .ok (Session.stack f index.toNat count.toNat)
  | .scopes frameId => .ok (Session.scopes f frameId.toNat)
  | .variablesBehind reference => .ok (Session.variablesBehind reference.toNat)
  | .setVariable reference name literal => assignText reference.toNat name literal.text
  | .locations path line => .ok (Session.locations f path line.toNat)
  | .setBreakpoint path line column =>
    .ok (Session.setBreakpoint f path line.toNat (column.map UInt32.toNat))
  | .removeBreakpoint id => .ok (Session.removeBreakpoint id.toInt)

end Operation

/-! ## Replies that are understood -/

section

variable {α : Type}

/-- Whether an inquiry understands a reply: it has what was asked for, or says that the agent
refused. -/
def Inquiry.Accepts (q : Inquiry α) (reply : DebuggerMessage) : Prop :=
  (∃ text, reply = .error text) ∨ ∃ answer, q.read? reply = some answer

theorem Inquiry.interpret_of_accepts {q : Inquiry α} {reply : DebuggerMessage}
    (h : q.Accepts reply) :
    (∃ text, q.interpret reply = .error (.remote text)) ∨
      ∃ answer, q.interpret reply = .ok answer := by
  rcases h with ⟨text, rfl⟩ | ⟨answer, hanswer⟩
  · exact .inl ⟨text, rfl⟩
  · cases reply with
    | error text => exact .inl ⟨text, rfl⟩
    | _ => exact .inr ⟨answer, by rw [interpret, hanswer]; nofun⟩

/-- The agent reads a message of an inquiry as `m`, which asks for a reply that the inquiry
understands. -/
structure HeardAs (q : Inquiry α) (m : HostMessage) : Prop where
  decoded : HostMessage.decode? (Text.Utf8.encode q.message.toJson.text) = some m
  asks : ¬IsToggle m
  accepts : ∀ reply, IsReply reply m → (∀ path, reply ≠ .programLoaded path) → q.Accepts reply

/-- A message that fits its record is heard as it is. -/
theorem heardAs_of_fits {q : Inquiry α} (hfits : q.message.Fits) (hasks : ¬IsToggle q.message)
    (haccepts : ∀ reply, IsReply reply q.message → (∀ path, reply ≠ .programLoaded path) →
      q.Accepts reply) : HeardAs q q.message :=
  ⟨HostMessage.decode?_payload hfits, hasks, haccepts⟩

end

/-- With the mapper of a program that is its own source, lines and columns stay words. -/
theorem toInternal_lt {f : Frontier} (hf : f.mapper = .identity) (path : String) {line column : Nat}
    (hline : line < UInt32.size) (hcolumn : column < UInt32.size) :
    (f.toInternal ⟨path, line, column⟩).line < UInt32.size ∧
      (f.toInternal ⟨path, line, column⟩).column < UInt32.size := by
  rw [Frontier.toInternal, hf]
  exact ⟨hline, Nat.lt_of_le_of_lt (Nat.sub_le column 1) hcolumn⟩

theorem of_assignText_ok {reference : Nat} {name literal : String} {q : Inquiry Wire.Variable}
    (h : assignText reference name literal = .ok q) :
    ∃ value, Json.read? literal = some value ∧ q = assign reference name value := by
  rw [assignText] at h
  cases hread : Json.read? literal with
  | none =>
      rw [hread] at h
      cases h
  | some value =>
      rw [hread] at h
      exact ⟨value, rfl, (Except.ok.inj h).symm⟩

theorem of_assignText_error {reference : Nat} {name literal : String} {failure : Failure}
    (h : assignText reference name literal = .error failure) :
    failure = .invalidLiteral literal := by
  rw [assignText] at h
  split at h
  · cases h
  · exact (Except.error.inj h).symm

namespace Operation

/-- The agent reads the message of every operation. -/
theorem exists_heardAs {f : Frontier} (hf : f.mapper = .identity) {op : Operation}
    {q : Inquiry op.Answer} (hq : op.inquiry? f = .ok q) : ∃ m, HeardAs q m := by
  cases op with
  | resume command =>
      obtain rfl := Except.ok.inj hq
      refine ⟨_, heardAs_of_fits ?_ ?_ fun reply hreply hloaded => ?_⟩
      · cases command <;> trivial
      · cases command <;> exact id
      · have hkind : (∃ path, reply = .programLoaded path) ∨ reply = .stopOnStep ∨
            ∃ id, reply = .stopOnBreakpoint id := by
          cases command <;> exact hreply
        rcases hkind with ⟨path, hpath⟩ | rfl | ⟨id, rfl⟩
        · exact absurd hpath (hloaded path)
        · exact .inr ⟨_, rfl⟩
        · exact .inr ⟨_, rfl⟩
  | stack index count =>
      obtain rfl := Except.ok.inj hq
      refine ⟨_, heardAs_of_fits ⟨index.toNat_lt_size, count.toNat_lt_size⟩ id ?_⟩
      rintro reply (⟨frames, rfl⟩ | ⟨text, rfl⟩) -
      · exact .inr ⟨_, rfl⟩
      · exact .inl ⟨text, rfl⟩
  | scopes frameId =>
      obtain rfl := Except.ok.inj hq
      refine ⟨_, heardAs_of_fits frameId.toNat_lt_size id ?_⟩
      rintro reply (⟨items, rfl⟩ | ⟨text, rfl⟩) -
      · exact .inr ⟨_, rfl⟩
      · exact .inl ⟨text, rfl⟩
  | variablesBehind reference =>
      obtain rfl := Except.ok.inj hq
      refine ⟨_, heardAs_of_fits reference.toNat_lt_size id ?_⟩
      rintro reply (⟨items, rfl⟩ | ⟨text, rfl⟩) -
      · exact .inr ⟨_, rfl⟩
      · exact .inl ⟨text, rfl⟩
  | setVariable reference name literal =>
      obtain ⟨value, hread, rfl⟩ := of_assignText_ok hq
      obtain ⟨value', hreread⟩ := (Json.standsAt_of_read? hread).exists_reread
      have hdecode := HostMessage.decode?_assignment reference.toNat_lt_size name hreread
      have hroom : value.nesting < Json.Progress.depthLimit :=
        Nat.lt_succ_of_le (literal.shallow value hread)
      rw [if_pos hroom] at hdecode
      refine ⟨_, hdecode, id, ?_⟩
      rintro reply (⟨v, rfl⟩ | ⟨text, rfl⟩) -
      · exact .inr ⟨_, rfl⟩
      · exact .inl ⟨text, rfl⟩
  | locations path line =>
      obtain rfl := Except.ok.inj hq
      refine ⟨_, heardAs_of_fits (toInternal_lt hf path line.toNat_lt_size (by decide)) id ?_⟩
      rintro reply ⟨items, rfl⟩ -
      exact .inr ⟨_, rfl⟩
  | setBreakpoint path line column =>
      have hcolumn : (column.map UInt32.toNat).getD 1 < UInt32.size := by
        cases column with
        | none => decide
        | some column => exact column.toNat_lt_size
      obtain rfl := Except.ok.inj hq
      refine ⟨_, heardAs_of_fits (toInternal_lt hf path line.toNat_lt_size hcolumn) id ?_⟩
      rintro reply ⟨id, rfl⟩ -
      exact .inr ⟨_, rfl⟩
  | removeBreakpoint number =>
      have hnumber : Json.IsInt64 number.toInt :=
        ⟨number.le_toInt, Int.le_of_lt_add_one number.toInt_lt⟩
      obtain rfl := Except.ok.inj hq
      refine ⟨_, heardAs_of_fits hnumber id ?_⟩
      rintro reply ⟨removed, rfl⟩ -
      exact .inr ⟨_, rfl⟩

end Operation

end ScriptDebugger.Session
