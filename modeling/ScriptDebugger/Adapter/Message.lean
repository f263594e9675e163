import ScriptDebugger.Json.Fields
import ScriptDebugger.Json.Parser
import ScriptDebugger.Json.Printer
import ScriptDebugger.Text.Utf8
/-!
# Messages of the Debug Adapter Protocol

A message has a number, a type and a content: a request, a response or an event. What a message is
shows in its fields, not in its type: whatever has a command is a request, unless its arguments
stand twice. A message travels behind header lines of which one says how many bytes it has.

## Main results

* `ofContent_content` — a message that is sent carries the content it was made of.
-/

namespace ScriptDebugger.Adapter

/-- What a message says. -/
inductive Content
  /-- A command for the adapter. -/
  | request (command : String) (arguments : Option Json)
  /-- The outcome of the request with a number. -/
  | response (requestSeq : Nat) (success : Bool) (command : String) (message : Option String)
    (body : Option Json)
  /-- Something that happened. -/
  | event (name : String) (body : Option Json)

/-- A message. -/
structure Message where
  /-- Its number. -/
  seq : Nat
  /-- Its type, as the sender names it. -/
  type : String
  /-- What it says. -/
  content : Content

/-- The type that goes with a content. -/
def Content.type : Content → String
  | .request .. => "request"
  | .response .. => "response"
  | .event .. => "event"

/-- The fields of a content. -/
def Content.fields : Content → List (String × Json)
  | .request command arguments =>
    [("command", .string command), ("arguments", arguments.getD .null)]
  | .response requestSeq success command message body =>
    [("request_seq", .ofNat requestSeq), ("success", .bool success), ("command", .string command)] ++
      Json.optionalMember "message" Json.string message ++ Json.optionalMember "body" id body
  | .event name body => ("event", .string name) :: Json.optionalMember "body" id body

namespace Message

/-- The message with a content that is sent under a number. -/
def ofContent (seq : Nat) (content : Content) : Message := ⟨seq, content.type, content⟩

@[simp]
theorem ofContent_content (seq : Nat) (content : Content) :
    (ofContent seq content).content = content := rfl

/-- The message as a document. -/
def toJson (m : Message) : Json :=
  .object (("seq", .ofNat m.seq) :: ("type", .string m.type) :: m.content.fields)

/-- The bytes of a message with its header. -/
def encode (m : Message) : List UInt8 :=
  let body := Text.Utf8.encode m.toJson.text
  Text.Utf8.encode s!"Content-Length: {body.length}\r\n\r\n" ++ body

/-- Numbers contents one after another. -/
def number (seq : Nat) : List Content → List Message
  | [] => []
  | content :: rest => ofContent seq content :: number (seq + 1) rest

@[simp]
theorem number_length (seq : Nat) (contents : List Content) :
    (number seq contents).length = contents.length := by
  induction contents generalizing seq with
  | nil => rfl
  | cons content rest ih => simp [number, ih]

end Message

/-! ## Reading -/

/-- A field that may be missing or null, and is whatever document it is. -/
def anything (field : Option Json) : Option Json :=
  match field with
  | some .null => none
  | some j => some j.canonical
  | none => none

/-- The request that members are. -/
def request? (j : Json) : Option Content :=
  match j.fields? ["command", "arguments"] with
  | some [some command, arguments] => command.string?.map fun c => .request c (anything arguments)
  | _ => none

/-- The response that members are. -/
def response? (j : Json) : Option Content :=
  match j.fields? ["request_seq", "success", "command", "message", "body"] with
  | some [some seq, some success, some command, message, body] => do
    pure
      (.response (← seq.nat64?) (← success.bool?) (← command.string?)
        (← Json.optional? Json.string? message) (anything body))
  | _ => none

/-- The event that members are. -/
def event? (j : Json) : Option Content :=
  match j.fields? ["event", "body"] with
  | some [some name, body] => name.string?.map fun n => .event n (anything body)
  | _ => none

/-- The message that a document is; it has to be an object. -/
def Message.ofJson? (j : Json) : Option Message :=
  match j with
  | .object members => do
    let head ← Json.fields? ["seq", "type"] j
    match head with
    | [some seq, some type] =>
      let rest := Json.object (members.filter fun m => m.1 != "seq" && m.1 != "type")
      let content ← (request? rest).or ((response? rest).or (event? rest))
      pure ⟨← seq.nat64?, ← type.string?, content⟩
    | _ => none
  | _ => none

/-- The message that a body is. -/
def Message.decode? (body : List UInt8) : Option Message :=
  ((Text.Utf8.decode? body).bind Json.parse?).bind ofJson?

end ScriptDebugger.Adapter
