import ScriptDebugger.Proofs.Json.Records
import ScriptDebugger.Proofs.Wire.Frames
import ScriptDebugger.Wire.Message
/-!
# Messages and junk on the wire

A message is written as a record inside records. Reading undoes it for every kind of message and any
fields left out, as long as the numbers have the bits that the fields have on the wire. On a stream
of messages, junk lines and frames that are no messages are passed over, and cost no message before
or behind them.

## Main results

* `DebuggerMessage.ofJson?_toJson`, `HostMessage.ofJson?_toJson` — reading a message's document.
* `DebuggerMessage.decode?_payload`, `HostMessage.decode?_payload` — reading its bytes.
* `messages_ofItems` — the messages in a stream with junk.
* `decoding_undoes_encoding` — both directions of the wire, however the bytes come in.
-/

namespace ScriptDebugger

/-- Whether a location fits its record. -/
structure Location.Fits (l : Location) : Prop where
  line : l.line < UInt32.size
  column : l.column < UInt32.size

namespace Wire

open Json (Holds ofSlots)

/-! ## What fits -/

/-- Whether a frame fits its record. -/
structure StackFrame.Fits (f : StackFrame) : Prop where
  id : f.id < UInt32.size
  line : f.line < UInt32.size
  column : f.column < UInt32.size

/-- Whether a scope fits its record. -/
structure Scope.Fits (s : Scope) : Prop where
  variablesReference : s.variablesReference < UInt32.size
  line : ∀ n ∈ s.line, n < UInt32.size
  column : ∀ n ∈ s.column, n < UInt32.size
  endLine : ∀ n ∈ s.endLine, n < UInt32.size

/-- Whether a variable fits its record. -/
structure Variable.Fits (v : Variable) : Prop where
  variablesReference : v.variablesReference < UInt32.size

/-- Whether a message of the agent fits its record. -/
def DebuggerMessage.Fits : DebuggerMessage → Prop
  | .connect | .programLoaded _ | .stopOnStep | .error _ => True
  | .breakpointSet id location => Json.IsInt64 id ∧ location.Fits
  | .breakpointRemoved id _ | .stopOnBreakpoint id => Json.IsInt64 id
  | .breakpointsForLine locations => ∀ l ∈ locations, l.Fits
  | .stack frames => ∀ f ∈ frames, f.Fits
  | .scopes items => ∀ s ∈ items, s.Fits
  | .variableList items => ∀ v ∈ items, v.Fits
  | .variableSet newValue => newValue.Fits

/-- The depth that a message leaves for the value in it. -/
def valueDepth : Nat := 126

/-- Whether a message of the front end fits its record. A value has its members in order, and no
numbers but integers of 64 bits. -/
def HostMessage.Fits : HostMessage → Prop
  | .startDebugLogging | .stopDebugLogging | .loadProgram _ | .proceed | .next | .stepIn | .stepOut
  | .unknown => True
  | .setBreakpoint _ line column | .getBreakpointsForLine _ line column =>
    line < UInt32.size ∧ column < UInt32.size
  | .removeBreakpoint id => Json.IsInt64 id
  | .getStack index count => index < UInt32.size ∧ count < UInt32.size
  | .getScopes frameId => frameId < UInt32.size
  | .getVariables reference => reference < UInt32.size
  | .setVariable reference _ value =>
    reference < UInt32.size ∧ value.canonical = value ∧ Holds valueDepth value

/-! ## Records -/

theorem source?_sourceJson (path : String) : source? (sourceJson path) = some path := by
  have hfields : (sourceJson path).fields? ["path"] = some [some (.string path)] :=
    Json.fields?_ofSlots [("path", some (.string path))] rfl (by decide)
  rw [source?, hfields]
  rfl

theorem holds_sourceJson (path : String) : Holds 1 (sourceJson path) :=
  .object fun m hm => by
    rw [List.mem_singleton.1 hm]
    exact .string path

theorem location?_locationJson {l : Location} (h : l.Fits) :
    location? (locationJson l) = some l := by
  have hfields : (locationJson l).fields? ["line", "column"] =
      some [some (.ofNat l.line), some (.ofNat l.column)] :=
    Json.fields?_ofSlots [("line", some (.ofNat l.line)), ("column", some (.ofNat l.column))]
      rfl (by decide)
  rw [location?, hfields]
  simp only [Json.nat32?_ofNat h.line, Json.nat32?_ofNat h.column]
  rfl

theorem holds_locationJson {l : Location} (h : l.Fits) : Holds 1 (locationJson l) := by
  refine .object fun m hm => ?_
  simp only [List.mem_cons, List.not_mem_nil, or_false] at hm
  rcases hm with rfl | rfl
  · exact .ofNat h.line
  · exact .ofNat h.column

theorem optional?_source (source : Option String) :
    Json.optional? source? (source.map sourceJson) = some source :=
  Json.optional?_map nofun fun path _ => source?_sourceJson path

theorem optional?_nat32 {value : Option Nat} (h : ∀ n ∈ value, n < UInt32.size) :
    Json.optional? Json.nat32? (value.map Json.ofNat) = some value :=
  Json.optional?_map nofun fun n hn => Json.nat32?_ofNat (h n hn)

/-- The fields of a frame's record. -/
def StackFrame.slots (f : StackFrame) : List (String × Option Json) :=
  [("id", some (.ofNat f.id)), ("name", some (.string f.name)),
    ("source", f.source.map sourceJson), ("line", some (.ofNat f.line)),
    ("column", some (.ofNat f.column))]

theorem StackFrame.toJson_eq (f : StackFrame) : f.toJson = .object (ofSlots f.slots) := by
  simp [StackFrame.toJson, StackFrame.slots, Json.ofSlots_optional, ofSlots]

theorem StackFrame.ofJson?_toJson {f : StackFrame} (h : f.Fits) :
    StackFrame.ofJson? f.toJson = some f := by
  have hfields : f.toJson.fields? ["id", "name", "source", "line", "column"] =
      some (f.slots.map Prod.snd) := by
    rw [StackFrame.toJson_eq]
    exact Json.fields?_ofSlots f.slots rfl (by decide)
  rw [StackFrame.ofJson?, hfields]
  simp only [StackFrame.slots, List.map_cons, List.map_nil, Json.nat32?_ofNat h.id,
    Json.nat32?_ofNat h.line, Json.nat32?_ofNat h.column, optional?_source]
  rfl

theorem StackFrame.holds_toJson {f : StackFrame} (h : f.Fits) : Holds 2 f.toJson := by
  rw [StackFrame.toJson_eq]
  refine .record ?_
  simp only [StackFrame.slots, List.forall_mem_cons]
  exact ⟨.of_some (.ofNat h.id), .of_some (.string f.name),
    .of_map fun path _ => holds_sourceJson path, .of_some (.ofNat h.line),
    .of_some (.ofNat h.column), nofun⟩

/-- The fields of a scope's record. -/
def Scope.slots (s : Scope) : List (String × Option Json) :=
  [("name", some (.string s.name)), ("presentationHint", some (.string s.presentationHint)),
    ("variablesReference", some (.ofNat s.variablesReference)),
    ("expensive", some (.bool s.expensive)), ("source", s.source.map sourceJson),
    ("line", s.line.map Json.ofNat), ("column", s.column.map Json.ofNat),
    ("endLine", s.endLine.map Json.ofNat)]

theorem Scope.toJson_eq (s : Scope) : s.toJson = .object (ofSlots s.slots) := by
  simp [Scope.toJson, Scope.slots, Json.ofSlots_optional, ofSlots]

theorem Scope.ofJson?_toJson {s : Scope} (h : s.Fits) : Scope.ofJson? s.toJson = some s := by
  have hfields : s.toJson.fields? ["name", "presentationHint", "variablesReference", "expensive",
      "source", "line", "column", "endLine"] = some (s.slots.map Prod.snd) := by
    rw [Scope.toJson_eq]
    exact Json.fields?_ofSlots s.slots rfl (by decide)
  rw [Scope.ofJson?, hfields]
  simp only [Scope.slots, List.map_cons, List.map_nil, Json.nat32?_ofNat h.variablesReference,
    optional?_source, optional?_nat32 h.line, optional?_nat32 h.column, optional?_nat32 h.endLine]
  rfl

theorem Scope.holds_toJson {s : Scope} (h : s.Fits) : Holds 2 s.toJson := by
  rw [Scope.toJson_eq]
  refine .record ?_
  simp only [Scope.slots, List.forall_mem_cons]
  exact ⟨.of_some (.string _), .of_some (.string _), .of_some (.ofNat h.variablesReference),
    .of_some (.bool _), .of_map fun path _ => holds_sourceJson path,
    .of_map fun n hn => .ofNat (h.line n hn), .of_map fun n hn => .ofNat (h.column n hn),
    .of_map fun n hn => .ofNat (h.endLine n hn), nofun⟩

/-- The fields of a variable's record. -/
def Variable.slots (v : Variable) : List (String × Option Json) :=
  [("name", some (.string v.name)), ("value", some (.string v.value)),
    ("type", some (.string v.typeName)), ("variablesReference", some (.ofNat v.variablesReference))]

theorem Variable.ofJson?_toJson {v : Variable} (h : v.Fits) :
    Variable.ofJson? v.toJson = some v := by
  have hfields : v.toJson.fields? ["name", "value", "type", "variablesReference"] =
      some (v.slots.map Prod.snd) := Json.fields?_ofSlots v.slots rfl (by decide)
  rw [Variable.ofJson?, hfields]
  simp only [Variable.slots, List.map_cons, List.map_nil, Json.nat32?_ofNat h.variablesReference]
  rfl

theorem Variable.holds_toJson {v : Variable} (h : v.Fits) : Holds 2 v.toJson := by
  show Holds 2 (.object (ofSlots v.slots))
  refine .record ?_
  simp only [Variable.slots, List.forall_mem_cons]
  exact ⟨.of_some (.string _), .of_some (.string _), .of_some (.string _),
    .of_some (.ofNat h.variablesReference), nofun⟩

/-! ## Messages -/

theorem splitKind?_messageJson {kind : String} {fields : List (String × Json)}
    (h : ∀ m ∈ fields, m.1 ≠ "type") :
    splitKind? (messageJson kind fields) = some (kind, .object fields) := by
  have hnone : fields.filter (fun m => m.1 == "type") = [] :=
    List.filter_eq_nil_iff.2 fun m hm htype => h m hm (beq_iff_eq.1 htype)
  have hall : fields.filter (fun m => m.1 != "type") = fields :=
    List.filter_eq_self.2 fun m hm => bne_iff_ne.2 (h m hm)
  simp [messageJson, splitKind?, hnone, hall]

theorem DebuggerMessage.fields_ne_type (m : DebuggerMessage) : ∀ f ∈ m.fields, f.1 ≠ "type" := by
  cases m <;> simp [DebuggerMessage.fields]

theorem HostMessage.fields_ne_type (m : HostMessage) : ∀ f ∈ m.fields, f.1 ≠ "type" := by
  cases m <;> simp [HostMessage.fields]

/-- Reading a message of the agent undoes writing it. -/
theorem DebuggerMessage.ofJson?_toJson {m : DebuggerMessage} (h : m.Fits) :
    DebuggerMessage.ofJson? m.toJson = some m := by
  rw [DebuggerMessage.ofJson?, DebuggerMessage.toJson, splitKind?_messageJson m.fields_ne_type,
    Option.bind_some]
  cases m with
  | connect => rfl
  | stopOnStep => rfl
  | programLoaded path =>
      simp (disch := simp) [DebuggerMessage.kind, DebuggerMessage.fields, DebuggerMessage.ofKind?,
        Json.fields?_object, source?_sourceJson]
  | breakpointSet id location =>
      simp (disch := simp) [DebuggerMessage.kind, DebuggerMessage.fields, DebuggerMessage.ofKind?,
        Json.fields?_object, Json.int64?_ofInt h.1, location?_locationJson h.2]
  | breakpointRemoved id removed =>
      simp (disch := simp) [DebuggerMessage.kind, DebuggerMessage.fields, DebuggerMessage.ofKind?,
        Json.fields?_object, Json.int64?_ofInt h, Json.bool?]
  | breakpointsForLine locations =>
      have hread := Json.list?_map fun l hl => location?_locationJson (h l hl)
      simp (disch := simp) [DebuggerMessage.kind, DebuggerMessage.fields, DebuggerMessage.ofKind?,
        Json.fields?_object, hread]
  | stack frames =>
      have hread := Json.list?_map fun f hf => StackFrame.ofJson?_toJson (h f hf)
      simp (disch := simp) [DebuggerMessage.kind, DebuggerMessage.fields, DebuggerMessage.ofKind?,
        Json.fields?_object, hread]
  | scopes items =>
      have hread := Json.list?_map fun s hs => Scope.ofJson?_toJson (h s hs)
      simp (disch := simp) [DebuggerMessage.kind, DebuggerMessage.fields, DebuggerMessage.ofKind?,
        Json.fields?_object, hread]
  | variableList items =>
      have hread := Json.list?_map fun v hv => Variable.ofJson?_toJson (h v hv)
      simp (disch := simp) [DebuggerMessage.kind, DebuggerMessage.fields, DebuggerMessage.ofKind?,
        Json.fields?_object, hread]
  | variableSet newValue =>
      simp (disch := simp) [DebuggerMessage.kind, DebuggerMessage.fields, DebuggerMessage.ofKind?,
        Json.fields?_object, Variable.ofJson?_toJson h]
  | stopOnBreakpoint id =>
      simp (disch := simp) [DebuggerMessage.kind, DebuggerMessage.fields, DebuggerMessage.ofKind?,
        Json.fields?_object, Json.int64?_ofInt h]
  | error message =>
      simp (disch := simp) [DebuggerMessage.kind, DebuggerMessage.fields, DebuggerMessage.ofKind?,
        Json.fields?_object, Json.string?]

theorem place?_object {path : String} {line column : Nat}
    (h : line < UInt32.size ∧ column < UInt32.size) :
    place? (.object [("path", .string path), ("line", .ofNat line), ("column", .ofNat column)]) =
      some (path, line, column) := by
  simp (disch := simp) [place?, Json.fields?_object, Json.string?, Json.nat32?_ofNat h.1,
    Json.nat32?_ofNat h.2]

/-- Reading a message of the front end undoes writing it. -/
theorem HostMessage.ofJson?_toJson {m : HostMessage} (h : m.Fits) :
    HostMessage.ofJson? m.toJson = some m := by
  rw [HostMessage.ofJson?, HostMessage.toJson, splitKind?_messageJson m.fields_ne_type,
    Option.bind_some]
  cases m with
  | startDebugLogging => rfl
  | stopDebugLogging => rfl
  | proceed => rfl
  | next => rfl
  | stepIn => rfl
  | stepOut => rfl
  | unknown => rfl
  | loadProgram path =>
      simp (disch := simp) [HostMessage.kind, HostMessage.fields, HostMessage.ofKind?,
        Json.fields?_object, Json.string?]
  | setBreakpoint path line column =>
      simp [HostMessage.kind, HostMessage.fields, HostMessage.ofKind?, place?_object h]
  | getBreakpointsForLine path line column =>
      simp [HostMessage.kind, HostMessage.fields, HostMessage.ofKind?, place?_object h]
  | removeBreakpoint id =>
      simp (disch := simp) [HostMessage.kind, HostMessage.fields, HostMessage.ofKind?,
        Json.fields?_object, Json.int64?_ofInt h]
  | getStack index count =>
      simp (disch := simp) [HostMessage.kind, HostMessage.fields, HostMessage.ofKind?,
        Json.fields?_object, Json.nat32?_ofNat h.1, Json.nat32?_ofNat h.2]
  | getScopes frameId =>
      simp (disch := simp) [HostMessage.kind, HostMessage.fields, HostMessage.ofKind?,
        Json.fields?_object, Json.nat32?_ofNat h]
  | getVariables reference =>
      simp (disch := simp) [HostMessage.kind, HostMessage.fields, HostMessage.ofKind?,
        Json.fields?_object, Json.nat32?_ofNat h]
  | setVariable reference name value =>
      simp (disch := simp) [HostMessage.kind, HostMessage.fields, HostMessage.ofKind?,
        Json.fields?_object, Json.nat32?_ofNat h.1, Json.string?, h.2.1]

/-! ## Payloads -/

theorem DebuggerMessage.holds_fields {m : DebuggerMessage} (h : m.Fits) :
    ∀ f ∈ m.fields, Holds 3 f.2 := by
  cases m with
  | connect => nofun
  | stopOnStep => nofun
  | programLoaded path =>
      simp only [DebuggerMessage.fields, List.forall_mem_cons]
      exact ⟨(holds_sourceJson path).mono (by decide), nofun⟩
  | breakpointSet id location =>
      simp only [DebuggerMessage.fields, List.forall_mem_cons]
      exact ⟨.ofInt h.1, (holds_locationJson h.2).mono (by decide), nofun⟩
  | breakpointRemoved id removed =>
      simp only [DebuggerMessage.fields, List.forall_mem_cons]
      exact ⟨.ofInt h, .bool removed, nofun⟩
  | breakpointsForLine locations =>
      simp only [DebuggerMessage.fields, List.forall_mem_cons]
      exact ⟨.array_map fun l hl => (holds_locationJson (h l hl)).mono (by decide), nofun⟩
  | stack frames =>
      simp only [DebuggerMessage.fields, List.forall_mem_cons]
      exact ⟨.array_map fun f hf => StackFrame.holds_toJson (h f hf), nofun⟩
  | scopes items =>
      simp only [DebuggerMessage.fields, List.forall_mem_cons]
      exact ⟨.array_map fun s hs => Scope.holds_toJson (h s hs), nofun⟩
  | variableList items =>
      simp only [DebuggerMessage.fields, List.forall_mem_cons]
      exact ⟨.array_map fun v hv => Variable.holds_toJson (h v hv), nofun⟩
  | variableSet newValue =>
      simp only [DebuggerMessage.fields, List.forall_mem_cons]
      exact ⟨(Variable.holds_toJson h).mono (by decide), nofun⟩
  | stopOnBreakpoint id =>
      simp only [DebuggerMessage.fields, List.forall_mem_cons]
      exact ⟨.ofInt h, nofun⟩
  | error message =>
      simp only [DebuggerMessage.fields, List.forall_mem_cons]
      exact ⟨.string message, nofun⟩

theorem HostMessage.holds_fields {m : HostMessage} (h : m.Fits) :
    ∀ f ∈ m.fields, Holds valueDepth f.2 := by
  cases m with
  | startDebugLogging => nofun
  | stopDebugLogging => nofun
  | proceed => nofun
  | next => nofun
  | stepIn => nofun
  | stepOut => nofun
  | unknown => nofun
  | loadProgram path =>
      simp only [HostMessage.fields, List.forall_mem_cons]
      exact ⟨.string path, nofun⟩
  | setBreakpoint path line column =>
      simp only [HostMessage.fields, List.forall_mem_cons]
      exact ⟨.string path, .ofNat h.1, .ofNat h.2, nofun⟩
  | getBreakpointsForLine path line column =>
      simp only [HostMessage.fields, List.forall_mem_cons]
      exact ⟨.string path, .ofNat h.1, .ofNat h.2, nofun⟩
  | removeBreakpoint id =>
      simp only [HostMessage.fields, List.forall_mem_cons]
      exact ⟨.ofInt h, nofun⟩
  | getStack index count =>
      simp only [HostMessage.fields, List.forall_mem_cons]
      exact ⟨.ofNat h.1, .ofNat h.2, nofun⟩
  | getScopes frameId =>
      simp only [HostMessage.fields, List.forall_mem_cons]
      exact ⟨.ofNat h, nofun⟩
  | getVariables reference =>
      simp only [HostMessage.fields, List.forall_mem_cons]
      exact ⟨.ofNat h, nofun⟩
  | setVariable reference name value =>
      simp only [HostMessage.fields, List.forall_mem_cons]
      exact ⟨.ofNat h.1, .string name, h.2.2, nofun⟩

theorem holds_messageJson {depth : Nat} {kind : String} {fields : List (String × Json)}
    (h : ∀ f ∈ fields, Holds depth f.2) : Holds (depth + 1) (messageJson kind fields) := by
  refine .object ?_
  rw [List.forall_mem_cons]
  exact ⟨.string kind, h⟩

/-- The bytes of a document are read as the document. -/
theorem jsonOfBytes?_text {j : Json} (h : Holds Json.Progress.depthLimit j) :
    jsonOfBytes? (Text.Utf8.encode j.text) = some j := by
  rw [jsonOfBytes?, Text.Utf8.decode?_encode, Option.bind_some,
    Json.parse?_text_of_fitsWord h.numbers h.nesting]

theorem DebuggerMessage.decode?_payload {m : DebuggerMessage} (h : m.Fits) :
    DebuggerMessage.decode? (Text.Utf8.encode m.toJson.text) = some m := by
  have hholds : Holds 4 m.toJson := holds_messageJson (DebuggerMessage.holds_fields h)
  rw [DebuggerMessage.decode?, jsonOfBytes?_text (hholds.mono (by decide)), Option.bind_some,
    DebuggerMessage.ofJson?_toJson h]

theorem HostMessage.decode?_payload {m : HostMessage} (h : m.Fits) :
    HostMessage.decode? (Text.Utf8.encode m.toJson.text) = some m := by
  have hholds : Holds Json.Progress.depthLimit m.toJson :=
    holds_messageJson (HostMessage.holds_fields h)
  rw [HostMessage.decode?, jsonOfBytes?_text hholds, Option.bind_some, HostMessage.ofJson?_toJson h]

/-! ## Streams with junk -/

/-- What stands on the wire. -/
inductive Item (α : Type)
  /-- A message. -/
  | message (m : α)
  /-- A line that is no length, without its line feed. -/
  | line (bytes : List UInt8)
  /-- A frame that is no message. -/
  | junk (payload : List UInt8)

section

variable {α : Type} {encode : α → List UInt8} {decode? : List UInt8 → Option α} {Fits : α → Prop}

/-- The bytes of an item. -/
def Item.bytes (encode : α → List UInt8) : Item α → List UInt8
  | .message m => encode m
  | .line bytes => bytes ++ [10]
  | .junk payload => encodeFrame payload

/-- The message, if an item is one. -/
def Item.message? : Item α → Option α
  | .message m => some m
  | .line _ | .junk _ => none

/-- Whether an item is what it is meant to be. -/
def Item.IsSound (Fits : α → Prop) (decode? : List UInt8 → Option α) : Item α → Prop
  | .message m => Fits m
  | .line bytes => 10 ∉ bytes ∧ readLength? (lineText bytes) = none
  | .junk payload => decode? payload = none

/-- A new decoder hands out the messages and no others, whatever it is asked between the bytes of
the stream: those that it handed out on the way and those that come of asking on are the messages,
and then it waits. -/
def HandsOut (decode? : List UInt8 → Option α) (stream : List UInt8) (messages : List α) : Prop :=
  ∀ actions, bytesFed actions = stream → ∀ limit, messages.length < limit →
    let (d, early) := ({} : Decoder).play (Decoder.nextMessage decode?) actions
    let (d, late) := takeAll (Decoder.nextMessage decode?) limit d
    early ++ late = messages ∧ (d.nextMessage decode?).2 = none

/-- A decoder that is fed and asked in any order hands out the messages of all bytes. -/
theorem messages_play (d : Decoder) (actions : List Action) :
    (d.extend (bytesFed actions)).messages decode? =
      (d.play (Decoder.nextMessage decode?) actions).2 ++
        (d.play (Decoder.nextMessage decode?) actions).1.messages decode? := by
  induction actions generalizing d with
  | nil =>
      rw [bytesFed, Decoder.extend, List.append_nil]
      rfl
  | cons action actions ih =>
      cases action with
      | extend bytes =>
          rw [bytesFed, ← Decoder.extend_extend]
          exact ih (d.extend bytes)
      | ask =>
          rw [bytesFed, Decoder.play]
          rcases hnext : d.nextMessage decode? with ⟨d', _ | a⟩
          · rw [Decoder.messages_extend_of_none hnext]
            exact ih d'
          · rw [Decoder.messages_extend_of_some hnext, ih d']
            rfl

/-- The messages in the bytes of a stream are what a new decoder hands out. -/
theorem handsOut_messages (stream : List UInt8) :
    HandsOut decode? stream (Decoder.messages decode? ⟨stream, none⟩) := by
  intro actions hfed limit hlimit
  have hplay : Decoder.messages decode? ⟨bytesFed actions, none⟩ = _ := messages_play {} actions
  rw [hfed] at hplay
  have hlate : ((({} : Decoder).play (Decoder.nextMessage decode?) actions).1.messages
      decode?).length < limit := by
    rw [hplay, List.length_append] at hlimit
    omega
  obtain ⟨hall, hwaits⟩ := Decoder.takeAll_of_messages_lt hlate
  rw [hplay]
  exact ⟨congrArg _ hall, hwaits⟩

/-- Whether messages that fit are written as frames that are read as the messages. -/
def Undoes (encode : α → List UInt8) (decode? : List UInt8 → Option α) (Fits : α → Prop) : Prop :=
  ∀ m, Fits m → ∃ payload, encode m = encodeFrame payload ∧ decode? payload = some m

theorem length_lt_of_encodeFrame {payload : List UInt8}
    (h : (encodeFrame payload).length < UInt64.size) : payload.length < UInt64.size := by
  rw [encodeFrame, List.length_append, List.length_cons] at h
  omega

theorem nextMessage_empty : ({} : Decoder).nextMessage decode? = ({}, none) :=
  Decoder.nextMessage_of_none rfl

/-- A frame alone is a message or nothing. -/
theorem nextMessage_encodeFrame {payload : List UInt8} (h : payload.length < UInt64.size) :
    (⟨encodeFrame payload, none⟩ : Decoder).nextMessage decode? = ({}, decode? payload) := by
  have hnext := next_encodeFrame h []
  rw [List.append_nil] at hnext
  rw [Decoder.nextMessage_of_payload hnext]
  cases decode? payload with
  | none => exact nextMessage_empty
  | some m => rfl

theorem takeAll_empty (limit : Nat) :
    takeAll (Decoder.nextMessage decode?) limit {} = ({}, []) := by
  cases limit with
  | zero => rfl
  | succ limit => rw [takeAll, nextMessage_empty]

theorem takeAll_encodeFrame {payload : List UInt8} (h : payload.length < UInt64.size)
    (limit : Nat) :
    takeAll (Decoder.nextMessage decode?) (limit + 1) ⟨encodeFrame payload, none⟩ =
      ({}, (decode? payload).toList) := by
  rw [takeAll, nextMessage_encodeFrame h]
  cases decode? payload with
  | none => rfl
  | some m =>
      simp only [takeAll_empty]
      rfl

/-- A frame alone hands out its message, or nothing. -/
theorem handsOut_of_decode? {payload : List UInt8} (h : payload.length < UInt64.size)
    {result : Option α} (hdecode : decode? payload = result) :
    HandsOut decode? (encodeFrame payload) result.toList := by
  have hmessages : Decoder.messages decode? ⟨encodeFrame payload, none⟩ = result.toList := by
    rw [Decoder.messages, takeAll_encodeFrame h, hdecode]
  rw [← hmessages]
  exact handsOut_messages _

/-- The messages in a stream with junk. -/
theorem messages_ofItems (hcode : Undoes encode decode? Fits) {items : List (Item α)}
    (hsound : ∀ item ∈ items, item.IsSound Fits decode?)
    (hsize : ∀ item ∈ items, (item.bytes encode).length < UInt64.size) :
    Decoder.messages decode? ⟨items.flatMap (Item.bytes encode), none⟩ =
      items.filterMap Item.message? := by
  induction items with
  | nil =>
      have hnext : (⟨[], none⟩ : Decoder).next = (⟨[], none⟩, none) := rfl
      exact Decoder.messages_of_none (Decoder.nextMessage_of_none hnext)
  | cons item items ih =>
      have hitem := hsound item List.mem_cons_self
      have hlength := hsize item List.mem_cons_self
      have hothers := ih (fun i hi => hsound i (List.mem_cons_of_mem item hi))
        fun i hi => hsize i (List.mem_cons_of_mem item hi)
      rw [List.flatMap_cons]
      generalize items.flatMap (Item.bytes encode) = rest at hothers
      cases item with
      | message m =>
          obtain ⟨payload, hencode, hread⟩ := hcode m hitem
          rw [Item.bytes, hencode] at hlength ⊢
          have hnext : Decoder.nextMessage decode? _ = _ := Decoder.nextMessage_of_payload
            (next_encodeFrame (length_lt_of_encodeFrame hlength) rest)
          rw [hread] at hnext
          rw [Decoder.messages_of_some hnext, hothers]
          rfl
      | line bytes =>
          have hnext := next_of_cutLine (cutLine_append hitem.1 rest)
          rw [hitem.2] at hnext
          rw [Item.bytes, List.append_assoc, List.singleton_append,
            Decoder.messages_congr (Decoder.nextMessage_of_malformed hnext), hothers]
          rfl
      | junk payload =>
          have hrefused : decode? payload = none := hitem
          have hnext : Decoder.nextMessage decode? _ = _ := Decoder.nextMessage_of_payload
            (next_encodeFrame (length_lt_of_encodeFrame hlength) rest)
          rw [hrefused] at hnext
          rw [Item.bytes, Decoder.messages_congr hnext, hothers]
          rfl

end

theorem HostMessage.undoes : Undoes HostMessage.encode HostMessage.decode? HostMessage.Fits :=
  fun _ h => ⟨_, rfl, HostMessage.decode?_payload h⟩

theorem DebuggerMessage.undoes :
    Undoes DebuggerMessage.encode DebuggerMessage.decode? DebuggerMessage.Fits :=
  fun _ h => ⟨_, rfl, DebuggerMessage.decode?_payload h⟩

/-- A stream of messages, junk lines and frames that are no messages: a decoder hands out the
messages as they were, in order, and then waits, however the bytes come in. This holds for what the
front end says and for what the agent says. -/
theorem decoding_undoes_encoding :
    (∀ items : List (Item HostMessage),
      (∀ item ∈ items, item.IsSound HostMessage.Fits HostMessage.decode?) →
      (∀ item ∈ items, (item.bytes HostMessage.encode).length < UInt64.size) →
      HandsOut HostMessage.decode? (items.flatMap (Item.bytes HostMessage.encode))
        (items.filterMap Item.message?)) ∧
    ∀ items : List (Item DebuggerMessage),
      (∀ item ∈ items, item.IsSound DebuggerMessage.Fits DebuggerMessage.decode?) →
      (∀ item ∈ items, (item.bytes DebuggerMessage.encode).length < UInt64.size) →
      HandsOut DebuggerMessage.decode? (items.flatMap (Item.bytes DebuggerMessage.encode))
        (items.filterMap Item.message?) := by
  constructor
  · intro items hsound hsize
    rw [← messages_ofItems HostMessage.undoes hsound hsize]
    exact handsOut_messages _
  · intro items hsound hsize
    rw [← messages_ofItems DebuggerMessage.undoes hsound hsize]
    exact handsOut_messages _

/-- A line that is no length, an assignment, a frame that is no message, and a command. -/
def strewnMessages : List (Item HostMessage) :=
  [.line [0x61, 0x0D],
    .message (.setVariable 1 "x\n" (.object [("a", .array [.number (.int (-1)), .null])])),
    .junk [0x7B], .message .next]

theorem decoding_undoes_encoding_strewn :
    (∀ item ∈ strewnMessages, item.IsSound HostMessage.Fits HostMessage.decode?) ∧
      (∀ item ∈ strewnMessages, (item.bytes HostMessage.encode).length < UInt64.size) ∧
      HandsOut HostMessage.decode? (strewnMessages.flatMap (Item.bytes HostMessage.encode))
        (strewnMessages.filterMap Item.message?) := by
  have hsound : ∀ item ∈ strewnMessages, item.IsSound HostMessage.Fits HostMessage.decode? := by
    have hassign : HostMessage.Fits
        (.setVariable 1 "x\n" (.object [("a", .array [.number (.int (-1)), .null])])) :=
      ⟨by decide, by cbv, by decide, ⟨⟨by decide, by decide⟩, trivial, trivial⟩, trivial⟩
    rw [strewnMessages, List.forall_mem_cons, List.forall_mem_cons, List.forall_mem_cons,
      List.forall_mem_cons]
    exact ⟨⟨by decide, by cbv⟩, hassign, by cbv, trivial, List.forall_mem_nil _⟩
  have hsize : ∀ item ∈ strewnMessages,
      (item.bytes HostMessage.encode).length < UInt64.size := by
    rw [strewnMessages, List.forall_mem_cons, List.forall_mem_cons, List.forall_mem_cons,
      List.forall_mem_cons]
    exact ⟨by decide, by decide +kernel, by decide +kernel, by decide +kernel,
      List.forall_mem_nil _⟩
  exact ⟨hsound, hsize, decoding_undoes_encoding.1 strewnMessages hsound hsize⟩

end Wire

end ScriptDebugger
