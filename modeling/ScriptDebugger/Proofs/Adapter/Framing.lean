import ScriptDebugger.Console
import ScriptDebugger.Proofs.Json.Records
import ScriptDebugger.Proofs.Text.Blanks
import ScriptDebugger.Proofs.Wire.Lines
/-!
# Messages in the adapter's input

An envelope is a body behind header lines that announce its length. Envelopes that stand one behind
another are read one by one, whatever follows them, so an input asks for what its envelopes ask for.
What an envelope asks for shows in four members of its document. Which text stands under the type
plays no role, so that a response, which names the command it answers, is run as a request.

## Main results

* `Input.next_envelope`, `requestsIn_envelopes` — envelopes are read one by one.
* `Envelope.request?_eq_some_iff` — what an envelope asks for.
* `only_commands_run` — an envelope that asks for nothing can be left out of any input.
-/

namespace ScriptDebugger

open Text (dropBlanksRight)

/-! ## Header lines -/

namespace Adapter

/-- Header lines with the empty line that ends them. They announce a body of `m` bytes; so far `n`
bytes were announced. -/
inductive Heads : (n : Nat) → (lines : List UInt8) → (m : Nat) → Prop
  /-- The empty line. -/
  | finish {n : Nat} {line : List UInt8} {text : String} (hline : 10 ∉ line)
    (htext : Text.Utf8.decode? line = some text) (hmeans : Header.ofLine n text = .finish)
    (hn : n ≠ 0) : Heads n (line ++ [10]) n
  /-- A line that announces a length or leaves the one announced before. -/
  | line {n k m : Nat} {line lines : List UInt8} {text : String} (hline : 10 ∉ line)
    (htext : Text.Utf8.decode? line = some text) (hmeans : Header.ofLine n text = .length k)
    (h : Heads k lines m) : Heads n (line ++ 10 :: lines) m

theorem Heads.ne_nil {n m : Nat} {lines : List UInt8} (h : Heads n lines m) : lines ≠ [] := by
  cases h <;> simp

/-- A body behind header lines that announce its length. -/
structure Envelope where
  /-- The header lines. -/
  head : List UInt8
  /-- The body. -/
  body : List UInt8
  /-- The header lines announce the body. -/
  announced : Heads 0 head body.length

/-- The bytes of an envelope. -/
def Envelope.bytes (e : Envelope) : List UInt8 := e.head ++ e.body

/-- The bytes of envelopes one behind another. -/
def bytesOf (envelopes : List Envelope) : List UInt8 := envelopes.flatMap Envelope.bytes

/-- The line that announces a length, without its line feed. -/
def lengthLine (n : Nat) : String := s!"Content-Length: {n}\r"

theorem lengthLine_toList (n : Nat) :
    (lengthLine n).toList = "Content-Length:".toList ++ (' ' :: (toString n).toList ++ ['\r']) := by
  rw [show lengthLine n = "Content-Length: " ++ toString n ++ "\r" from rfl]
  simp

/-- Digits are no blanks, so nothing is trimmed off them at their end. -/
theorem dropBlanksRight_digits (front : List Char) (n : Nat) :
    dropBlanksRight (front ++ (toString n).toList) = front ++ (toString n).toList :=
  Text.dropBlanksRight_append_digits front (Wire.toString_toList_ne_nil n) fun _ hc =>
    Wire.isDigit_of_mem_toString hc

theorem dropBlanks_digits (n : Nat) :
    Text.dropBlanks (' ' :: (toString n).toList) = (toString n).toList := by
  have hdigits : ∀ c ∈ (toString n).toList, c.isDigit = true :=
    fun c hc => Wire.isDigit_of_mem_toString hc
  rw [Text.dropBlanks, List.dropWhile_cons_of_pos (by decide)]
  generalize (toString n).toList = cs at hdigits
  cases cs with
  | nil => rfl
  | cons c cs =>
      exact Text.dropBlanks_cons_of_not (Text.isBlank_of_isDigit (hdigits c List.mem_cons_self))

theorem ofLine_lengthLine (announced : Nat) {n : Nat} (h : n < UInt64.size) :
    Header.ofLine announced (lengthLine n) = .length n := by
  have hline : dropBlanksRight (lengthLine n).toList =
      "Content-Length:".toList ++ ' ' :: (toString n).toList := by
    rw [lengthLine_toList, ← List.append_assoc, Text.dropBlanksRight_append_blank _ (by decide)]
    simpa using dropBlanksRight_digits ("Content-Length:".toList ++ [' ']) n
  have hvalue : lengthField? ("Content-Length:".toList ++ ' ' :: (toString n).toList) =
      some (' ' :: (toString n).toList) := by
    simp [lengthField?]
  have htrim : Text.trimmed (' ' :: (toString n).toList) = (toString n).toList := by
    rw [Text.trimmed, dropBlanks_digits]
    exact dropBlanksRight_digits [] n
  rw [Header.ofLine]
  simp only [hline]
  rw [if_neg (by simp), hvalue]
  simp only [htrim, Wire.readLength?_toString h, Option.getD_some]

/-- What is written in front of a body announces it. -/
theorem heads_lengthLine {n : Nat} (hpos : n ≠ 0) (h : n < UInt64.size) :
    Heads 0 (Text.Utf8.encode s!"Content-Length: {n}\r\n\r\n") n := by
  have hbytes : Text.Utf8.encode s!"Content-Length: {n}\r\n\r\n" =
      Text.Utf8.encode (lengthLine n) ++ 10 :: (Text.Utf8.encode "\r" ++ [10]) := by
    have htext : (s!"Content-Length: {n}\r\n\r\n").toList =
        (lengthLine n).toList ++ ['\n', '\r', '\n'] := by
      rw [lengthLine_toList]
      show ("Content-Length: " ++ toString n ++ "\r\n\r\n").toList = _
      simp
    have hreturn : Text.Utf8.encode "\r" = [13] := by decide +kernel
    rw [Text.Utf8.encode_eq, htext, List.flatMap_append, ← Text.Utf8.encode_eq, hreturn]
    rfl
  have hline : '\n' ∉ (lengthLine n).toList := by
    rw [lengthLine_toList]
    intro hmem
    rcases List.mem_append.1 hmem with hname | hrest
    · exact absurd hname (by decide)
    · have hdigit : '\n' ∈ (toString n).toList := by simpa using hrest
      exact absurd (Wire.isDigit_of_mem_toString hdigit) (by decide)
  rw [hbytes]
  exact .line (Text.Utf8.newline_not_mem_encode hline) (Text.Utf8.decode?_encode _)
    (ofLine_lengthLine 0 h) (.finish (by decide +kernel) (Text.Utf8.decode?_encode _) rfl hpos)

/-- The envelope in which a body is written. -/
def Envelope.ofBody (body : List UInt8) (hne : body ≠ []) (h : body.length < UInt64.size) :
    Envelope where
  head := Text.Utf8.encode s!"Content-Length: {body.length}\r\n\r\n"
  body := body
  announced := heads_lengthLine (mt List.length_eq_zero_iff.1 hne) h

/-! ## Reading envelopes -/

theorem readLine?_append {line : List UInt8} (h : 10 ∉ line) (rest : List UInt8) :
    readLine? (line ++ 10 :: rest) = some (line, rest) := by
  have hcut := Wire.cutLine_append h rest
  rwa [Wire.cutLine_eq] at hcut

namespace Input

/-- The reader takes one line, and then the others. -/
theorem readHeaders_eq (n : Nat) (buffer : List UInt8) :
    readHeaders n buffer =
      match readLine? buffer with
      | none => (⟨buffer, .headers n⟩, .incomplete)
      | some (line, rest) =>
        match Text.Utf8.decode? line with
        | none => (⟨rest, .headers n⟩, .failed .headerNotText)
        | some text =>
          match Header.ofLine n text with
          | .length k => readHeaders k rest
          | .finish => if n = 0 then readHeaders 0 rest else takeBody rest n := by
  rw [readHeaders]
  split
  · rename_i hline
    generalize readLine? buffer = read at hline ⊢
    subst hline
    rfl
  · rename_i line rest hline
    generalize readLine? buffer = read at hline ⊢
    subst hline
    rfl

theorem readHeaders_of_none {buffer : List UInt8} (h : readLine? buffer = none) (n : Nat) :
    readHeaders n buffer = (⟨buffer, .headers n⟩, .incomplete) := by
  rw [readHeaders_eq, h]

/-- What the reader does with a whole line. -/
theorem readHeaders_of_line {buffer line rest : List UInt8} {text : String}
    (h : readLine? buffer = some (line, rest)) (htext : Text.Utf8.decode? line = some text)
    (n : Nat) :
    readHeaders n buffer =
      match Header.ofLine n text with
      | .length k => readHeaders k rest
      | .finish => if n = 0 then readHeaders 0 rest else takeBody rest n := by
  rw [readHeaders_eq, h]
  simp only [htext]

theorem readHeaders_heads {n m : Nat} {lines : List UInt8} (h : Heads n lines m)
    (rest : List UInt8) : readHeaders n (lines ++ rest) = takeBody rest m := by
  induction h with
  | finish hline htext hmeans hn =>
      rw [List.append_assoc, List.singleton_append,
        readHeaders_of_line (readLine?_append hline rest) htext, hmeans]
      exact if_neg hn
  | line hline htext hmeans _ ih =>
      rw [List.append_assoc, List.cons_append,
        readHeaders_of_line (readLine?_append hline _) htext, hmeans]
      exact ih

theorem next_envelope (e : Envelope) (rest : List UInt8) :
    (⟨e.bytes ++ rest, .headers 0⟩ : Input).next = (⟨rest, .headers 0⟩, .body e.body) := by
  have hlong : ¬(e.body ++ rest).length < e.body.length := by
    rw [List.length_append]
    omega
  rw [next, Envelope.bytes, List.append_assoc]
  show readHeaders 0 _ = _
  rw [readHeaders_heads e.announced, takeBody, if_neg hlong, List.drop_left, List.take_left]

/-- A body that is handed out uses up some of the bytes, and the next header lines begin. -/
theorem readHeaders_of_body {n : Nat} {buffer body : List UInt8} {i : Input}
    (h : readHeaders n buffer = (i, .body body)) :
    i.phase = .headers 0 ∧ i.buffer.length < buffer.length := by
  induction n, buffer using readHeaders.induct with
  | case1 n buffer hline =>
      rw [readHeaders_of_none hline] at h
      cases h
  | case2 n buffer line rest hline htext =>
      rw [readHeaders_eq, hline] at h
      simp only [htext] at h
      cases h
  | case3 n buffer line rest hline text htext k hmeans ih =>
      rw [readHeaders_of_line hline htext, hmeans] at h
      obtain ⟨hphase, hlt⟩ := ih h
      exact ⟨hphase, Nat.lt_trans hlt (readLine_length_lt hline)⟩
  | case4 buffer line rest hline text htext hmeans ih =>
      rw [readHeaders_of_line hline htext, hmeans, if_pos rfl] at h
      obtain ⟨hphase, hlt⟩ := ih h
      exact ⟨hphase, Nat.lt_trans hlt (readLine_length_lt hline)⟩
  | case5 n buffer line rest hline text htext hmeans hn =>
      rw [readHeaders_of_line hline htext, hmeans] at h
      have h : takeBody rest n = (i, .body body) := (if_neg hn).symm.trans h
      have hlt := readLine_length_lt hline
      unfold takeBody at h
      split at h
      · cases h
      · obtain ⟨rfl, -⟩ := Prod.mk.inj h
        refine ⟨rfl, ?_⟩
        rw [List.length_drop]
        omega

theorem messages_succ (i : Input) (limit : Nat) :
    i.messages (limit + 1) =
      match i.next with
      | (i, .incomplete) => ([], i.atEnd)
      | (_, .failed error) => ([], some error)
      | (i, .body bytes) =>
        match Message.decode? bytes with
        | some m => (m :: (i.messages limit).1, (i.messages limit).2)
        | none => i.messages limit := rfl

/-- A limit that is greater than the number of bytes is none. -/
theorem messages_of_lt {buffer : List UInt8} {limit limit' : Nat} (h : buffer.length < limit)
    (h' : buffer.length < limit') :
    messages ⟨buffer, .headers 0⟩ limit = messages ⟨buffer, .headers 0⟩ limit' := by
  induction limit generalizing buffer limit' with
  | zero => exact absurd h (Nat.not_lt_zero _)
  | succ limit ih =>
      obtain ⟨limit', rfl⟩ : ∃ k, limit' = k + 1 := ⟨limit' - 1, by omega⟩
      rw [messages_succ, messages_succ]
      cases hnext : (⟨buffer, .headers 0⟩ : Input).next with
      | mk i piece =>
          cases piece with
          | incomplete => rfl
          | failed error => rfl
          | body bytes =>
              obtain ⟨hphase, hlt⟩ := readHeaders_of_body (show readHeaders 0 buffer = _ from hnext)
              obtain ⟨rest, phase⟩ := i
              obtain rfl : phase = .headers 0 := hphase
              have hlt : rest.length < buffer.length := hlt
              simp only
              rw [ih (Nat.lt_of_lt_of_le hlt (Nat.le_of_lt_succ h))
                (Nat.lt_of_lt_of_le hlt (Nat.le_of_lt_succ h'))]

/-- Bytes from which a body is handed out count for the message that the body is. -/
theorem readAll_of_next {front body rest : List UInt8} (hne : front ≠ [])
    (h : (⟨front ++ rest, .headers 0⟩ : Input).next = (⟨rest, .headers 0⟩, .body body)) :
    readAll (front ++ rest) =
      ((Message.decode? body).toList ++ (readAll rest).1, (readAll rest).2) := by
  have hshort : rest.length < (front ++ rest).length := by
    have hpos := List.length_pos_iff.2 hne
    rw [List.length_append]
    omega
  have hrest : messages ⟨rest, .headers 0⟩ (front ++ rest).length = readAll rest :=
    messages_of_lt hshort (Nat.lt_succ_self _)
  show messages ⟨front ++ rest, .headers 0⟩ ((front ++ rest).length + 1) = _
  rw [messages_succ, h]
  simp only [hrest]
  cases Message.decode? body <;> rfl

theorem readAll_envelope (e : Envelope) (rest : List UInt8) :
    readAll (e.bytes ++ rest) =
      ((Message.decode? e.body).toList ++ (readAll rest).1, (readAll rest).2) :=
  readAll_of_next (List.append_ne_nil_of_left_ne_nil e.announced.ne_nil e.body)
    (next_envelope e rest)

theorem readAll_nil : readAll [] = ([], none) := by
  have hnext : (⟨[], .headers 0⟩ : Input).next = (⟨[], .headers 0⟩, .incomplete) := by
    exact readHeaders_of_none rfl 0
  show messages ⟨[], .headers 0⟩ 1 = _
  rw [messages_succ, hnext]
  rfl

end Input

/-- The requests in an input. -/
def requestsIn (bytes : List UInt8) : List Request :=
  (Input.readAll bytes).1.filterMap Message.request?

/-- The request that an envelope holds. -/
def Envelope.request? (e : Envelope) : Option Request :=
  (Message.decode? e.body).bind Message.request?

/-- Envelopes are read one by one. -/
theorem requestsIn_envelopes (envelopes : List Envelope) (rest : List UInt8) :
    requestsIn (bytesOf envelopes ++ rest) =
        envelopes.filterMap Envelope.request? ++ requestsIn rest ∧
      (Input.readAll (bytesOf envelopes ++ rest)).2 = (Input.readAll rest).2 := by
  induction envelopes with
  | nil => exact ⟨rfl, rfl⟩
  | cons e envelopes ih =>
      obtain ⟨hrequests, hending⟩ := ih
      rw [bytesOf, List.flatMap_cons, List.append_assoc, requestsIn, Input.readAll_envelope]
      refine ⟨?_, hending⟩
      show ((Message.decode? e.body).toList ++
        (Input.readAll (bytesOf envelopes ++ rest)).1).filterMap Message.request? = _
      rw [List.filterMap_append, ← requestsIn, hrequests, List.filterMap_cons, Envelope.request?]
      cases Message.decode? e.body with
      | none => rfl
      | some m => cases hm : m.request? <;> simp [hm]

/-! ## What an envelope asks for -/

end Adapter

namespace Json

/-- The values that stand under a key. -/
def valuesUnder (key : String) (members : List (String × Json)) : List Json :=
  (members.filter fun m => m.1 == key).map Prod.snd

theorem field?_eq_some_some_iff {members : List (String × Json)} {key : String} {j : Json} :
    field? members key = some (some j) ↔ valuesUnder key members = [j] := by
  rw [field?, valuesUnder]
  generalize members.filter (fun m => m.1 == key) = found
  rcases found with _ | ⟨m, _ | ⟨m', rest⟩⟩ <;> simp

theorem field?_eq_some_none_iff {members : List (String × Json)} {key : String} :
    field? members key = some none ↔ valuesUnder key members = [] := by
  rw [field?, valuesUnder]
  generalize members.filter (fun m => m.1 == key) = found
  rcases found with _ | ⟨m, _ | ⟨m', rest⟩⟩ <;> simp

/-- Two fields are read one after the other. -/
theorem fields?_pair {members : List (String × Json)} {first second : String}
    {fields : List (Option Json)} :
    fields? [first, second] (.object members) = some fields ↔
      ∃ a b, field? members first = some a ∧ field? members second = some b ∧ fields = [a, b] := by
  rw [fields?, fieldsOfMembers?, fieldsOfMembers?, fieldsOfMembers?]
  cases field? members first with
  | none => simp
  | some a =>
      cases field? members second with
      | none => simp
      | some b => simp [eq_comm]

theorem valuesUnder_filter {p : String × Json → Bool} {key : String}
    (h : ∀ m : String × Json, m.1 = key → p m = true) (members : List (String × Json)) :
    valuesUnder key (members.filter p) = valuesUnder key members := by
  rw [valuesUnder, valuesUnder, List.filter_filter]
  congr 2
  funext m
  by_cases hm : m.1 = key
  · simp [hm, h m hm]
  · simp [hm]

end Json

namespace Adapter

/-- What the members of a document ask for: there is one number, one type, whatever it is, one
command and at most one value for its arguments. Other members do not matter. -/
structure Asks (members : List (String × Json)) (r : Request) : Prop where
  /-- The number. -/
  seq : ∃ j, Json.valuesUnder "seq" members = [j] ∧ j.nat64? = some r.seq
  /-- The type, which may be any text. -/
  type : ∃ type, Json.valuesUnder "type" members = [.string type]
  /-- The command. -/
  command : Json.valuesUnder "command" members = [.string r.command]
  /-- The arguments. -/
  arguments : Json.valuesUnder "arguments" members = [] ∧ r.arguments = .null ∨
    ∃ j, Json.valuesUnder "arguments" members = [j] ∧ r.arguments = j.canonical

/-- The document that an envelope holds. -/
def Envelope.document? (e : Envelope) : Option Json :=
  (Text.Utf8.decode? e.body).bind Json.parse?

/-- An envelope asks for what the members of its document ask for. -/
def Envelope.Asks (e : Envelope) (r : Request) : Prop :=
  ∃ members, e.document? = some (.object members) ∧ Adapter.Asks members r

/-- Only what is read as a request is one. -/
theorem not_request_of_response? {j : Json} {content : Content}
    (h : (response? j).or (event? j) = some content) (command : String) (arguments : Option Json) :
    content ≠ .request command arguments := by
  rintro rfl
  rcases Option.or_eq_some_iff.1 h with h | ⟨-, h⟩
  · unfold response? at h
    split at h
    · simp [Option.bind_eq_some_iff] at h
    · cases h
  · unfold event? at h
    split at h
    · simp at h
    · cases h

theorem string?_eq_some_iff {j : Json} {text : String} :
    j.string? = some text ↔ j = .string text := by
  cases j <;> simp [Json.string?]

/-- The members that say what a message is, apart from its number and its type. -/
def contentMembers (members : List (String × Json)) : List (String × Json) :=
  members.filter fun m => m.1 != "seq" && m.1 != "type"

/-- What is read from the members of a message. -/
theorem ofJson?_eq_some_iff {members : List (String × Json)} {m : Message} :
    Message.ofJson? (.object members) = some m ↔
      (∃ j, Json.valuesUnder "seq" members = [j] ∧ j.nat64? = some m.seq) ∧
        Json.valuesUnder "type" members = [.string m.type] ∧
        (request? (.object (contentMembers members))).or
            ((response? (.object (contentMembers members))).or
              (event? (.object (contentMembers members)))) = some m.content := by
  obtain ⟨seq, type, content⟩ := m
  rw [Message.ofJson?, Option.bind_eq_bind, Option.bind_eq_some_iff, ← contentMembers]
  constructor
  · rintro ⟨head, hhead, h⟩
    obtain ⟨a, b, ha, hb, rfl⟩ := Json.fields?_pair.1 hhead
    cases a with
    | none => cases h
    | some a =>
        cases b with
        | none => cases h
        | some b =>
            simp only [Option.bind_eq_bind, Option.bind_eq_some_iff] at h
            obtain ⟨content', hcontent, seq', hseq, type', htype, h⟩ := h
            obtain ⟨rfl, rfl, rfl⟩ : seq' = seq ∧ type' = type ∧ content' = content := by
              simpa using h
            refine ⟨⟨a, Json.field?_eq_some_some_iff.1 ha, hseq⟩, ?_, hcontent⟩
            rw [Json.field?_eq_some_some_iff.1 hb, string?_eq_some_iff.1 htype]
  · rintro ⟨⟨j, hseq, hnumber⟩, htype, hcontent⟩
    refine ⟨_, Json.fields?_pair.2 ⟨_, _, Json.field?_eq_some_some_iff.2 hseq,
      Json.field?_eq_some_some_iff.2 htype, rfl⟩, ?_⟩
    simp only [hcontent, hnumber, Json.string?, Option.bind_eq_bind, Option.bind_some]
    rfl

/-- What is read from the members of a request. -/
theorem request?_eq_some_iff {members : List (String × Json)} {command : String}
    {arguments : Option Json} :
    request? (.object members) = some (.request command arguments) ↔
      Json.valuesUnder "command" members = [.string command] ∧
        ∃ field, Json.field? members "arguments" = some field ∧ arguments = anything field := by
  rw [request?]
  constructor
  · intro h
    split at h
    · rename_i command' field hfields
      obtain ⟨text, htext, hcontent⟩ := Option.map_eq_some_iff.1 h
      obtain ⟨rfl, rfl⟩ := Content.request.inj hcontent
      obtain ⟨a, b, ha, hb, heq⟩ := Json.fields?_pair.1 hfields
      obtain ⟨rfl, rfl⟩ : some command' = a ∧ field = b := by simpa using heq
      rw [string?_eq_some_iff.1 htext] at ha
      exact ⟨Json.field?_eq_some_some_iff.1 ha, field, hb, rfl⟩
    · cases h
  · rintro ⟨hcommand, field, hfield, rfl⟩
    rw [Json.fields?_pair.2 ⟨_, _, Json.field?_eq_some_some_iff.2 hcommand, hfield, rfl⟩]
    rfl

/-- The arguments of a request are null where there are none. -/
theorem arguments_iff {members : List (String × Json)} {arguments : Json} :
    (∃ field, Json.field? members "arguments" = some field ∧
        arguments = (anything field).getD .null) ↔
      Json.valuesUnder "arguments" members = [] ∧ arguments = .null ∨
        ∃ j, Json.valuesUnder "arguments" members = [j] ∧ arguments = j.canonical := by
  have hsome : ∀ j : Json, (anything (some j)).getD .null = j.canonical := by
    intro j
    cases j <;> rfl
  constructor
  · rintro ⟨_ | j, hfield, rfl⟩
    · exact .inl ⟨Json.field?_eq_some_none_iff.1 hfield, rfl⟩
    · exact .inr ⟨j, Json.field?_eq_some_some_iff.1 hfield, hsome j⟩
  · rintro (⟨hfield, rfl⟩ | ⟨j, hfield, rfl⟩)
    · exact ⟨none, Json.field?_eq_some_none_iff.2 hfield, rfl⟩
    · exact ⟨some j, Json.field?_eq_some_some_iff.2 hfield, (hsome j).symm⟩

/-- What a document asks for. -/
theorem asks_iff {members : List (String × Json)} {r : Request} :
    (Message.ofJson? (.object members)).bind Message.request? = some r ↔ Asks members r := by
  have hcommand : Json.valuesUnder "command" (contentMembers members) =
      Json.valuesUnder "command" members :=
    Json.valuesUnder_filter (fun m hm => by rw [hm]; rfl) members
  have harguments : Json.valuesUnder "arguments" (contentMembers members) =
      Json.valuesUnder "arguments" members :=
    Json.valuesUnder_filter (fun m hm => by rw [hm]; rfl) members
  constructor
  · intro h
    obtain ⟨⟨seq, type, content⟩, hm, hr⟩ := Option.bind_eq_some_iff.1 h
    obtain ⟨hseq, htype, hcontent⟩ := ofJson?_eq_some_iff.1 hm
    cases content with
    | request command arguments =>
        obtain rfl := Option.some.inj hr
        rcases Option.or_eq_some_iff.1 hcontent with hrequest | ⟨-, hother⟩
        · obtain ⟨htext, field, hfield, rfl⟩ := request?_eq_some_iff.1 hrequest
          have hread := arguments_iff.1 ⟨field, hfield, rfl⟩
          exact ⟨hseq, ⟨type, htype⟩, hcommand ▸ htext, harguments ▸ hread⟩
        · exact absurd rfl (not_request_of_response? hother _ _)
    | response => cases hr
    | event => cases hr
  · rintro ⟨hseq, ⟨type, htype⟩, htext, hread⟩
    obtain ⟨field, hfield, hvalue⟩ := arguments_iff.2 (harguments.symm ▸ hread)
    have hrequest : request? (.object (contentMembers members)) =
        some (.request r.command (anything field)) :=
      request?_eq_some_iff.2 ⟨hcommand.symm ▸ htext, field, hfield, rfl⟩
    have hm : Message.ofJson? (.object members) =
        some ⟨r.seq, type, .request r.command (anything field)⟩ :=
      ofJson?_eq_some_iff.2 ⟨hseq, htype, by rw [hrequest]; rfl⟩
    rw [hm, Option.bind_some]
    show some (⟨r.seq, r.command, (anything field).getD .null⟩ : Request) = some r
    rw [← hvalue]

/-- What an envelope asks for. -/
theorem Envelope.request?_eq_some_iff {e : Envelope} {r : Request} :
    e.request? = some r ↔ e.Asks r := by
  rw [Envelope.request?, Message.decode?, ← Envelope.document?, Envelope.Asks]
  cases e.document? with
  | none => simp
  | some j =>
      rw [Option.bind_some]
      cases j with
      | object members =>
          rw [asks_iff]
          exact ⟨fun h => ⟨members, rfl, h⟩, fun ⟨_, hsame, h⟩ => by cases hsame; exact h⟩
      | _ =>
          refine ⟨fun h => ?_, fun ⟨_, hsame, _⟩ => ?_⟩
          · cases h
          · cases hsame

/-! ## Written messages -/

theorem encode_toJson_ne_nil (m : Message) : Text.Utf8.encode m.toJson.text ≠ [] := by
  rw [Text.Utf8.encode_eq, Json.text, String.toList_ofList]
  show ('{' :: _).flatMap String.utf8EncodeChar ≠ []
  have hbrace : Text.Utf8.IsAscii '{' := by
    unfold Text.Utf8.IsAscii
    decide
  rw [List.flatMap_cons, Text.Utf8.utf8EncodeChar_of_isAscii hbrace]
  exact List.cons_ne_nil _ _

theorem length_encode_text_lt {j : Json} (h : 4 * j.render.length < UInt64.size) :
    (Text.Utf8.encode j.text).length < UInt64.size := by
  have hle := Text.Utf8.length_encode_le j.text
  rw [Json.text, String.toList_ofList] at hle
  exact Nat.lt_of_le_of_lt hle h

/-- The envelope in which a message is written, unless it is too long for one. -/
def Envelope.ofMessage (m : Message)
    (h : (Text.Utf8.encode m.toJson.text).length < UInt64.size) : Envelope :=
  .ofBody (Text.Utf8.encode m.toJson.text) (encode_toJson_ne_nil m) h

section

variable {m : Message} (h : (Text.Utf8.encode m.toJson.text).length < UInt64.size)

theorem Envelope.bytes_ofMessage : (Envelope.ofMessage m h).bytes = m.encode := rfl

/-- A written message is read unless too many arrays and objects stand inside one another in it, or
a number of it does not read back. -/
theorem Envelope.document?_ofMessage (hseq : m.seq < UInt64.size) :
    (Envelope.ofMessage m h).document? =
      if m.toJson.nesting ≤ Json.Progress.depthLimit then
        (Json.rereadMembers m.content.fields).map fun fields =>
          .object (("seq", .ofNat m.seq) :: ("type", .string m.type) :: fields)
      else none := by
  rw [Envelope.document?, Envelope.ofMessage, Envelope.ofBody, Text.Utf8.decode?_encode,
    Option.bind_some, Json.parse?_text, Message.toJson, Json.reread, Json.rereadMembers,
    Json.rereadMembers, Json.reread_ofNat hseq]
  cases Json.rereadMembers m.content.fields <;> rfl

/-- A written message that is read asks for what its members ask for. -/
theorem Envelope.asks_ofMessage (hseq : m.seq < UInt64.size)
    (hdepth : m.toJson.nesting ≤ Json.Progress.depthLimit) {fields : List (String × Json)}
    (hfields : Json.rereadMembers m.content.fields = some fields) {r : Request} :
    (Envelope.ofMessage m h).Asks r ↔
      Adapter.Asks (("seq", .ofNat m.seq) :: ("type", .string m.type) :: fields) r := by
  rw [Envelope.Asks, Envelope.document?_ofMessage h hseq, if_pos hdepth, hfields]
  constructor
  · rintro ⟨members, hmembers, hr⟩
    rwa [Json.object.inj (Option.some.inj hmembers)]
  · exact fun hr => ⟨_, rfl, hr⟩

end

/-- The arguments of a request stand in the object of its message. -/
theorem nesting_toJson_request (seq : Nat) (type command : String) (arguments : Option Json) :
    (Message.mk seq type (.request command arguments)).toJson.nesting =
      (arguments.getD .null).nesting + 1 := by
  simp [Message.toJson, Content.fields, Json.nesting, Json.nestingOfMembers, Json.ofNat]

/-- A written request asks for what it says, if its arguments can be read. They stand in the object
of the message, so there may be one array or object less inside one another than in a document. -/
theorem Envelope.asks_request_iff {seq : Nat} (hseq : seq < UInt64.size) (type command : String)
    (arguments : Option Json)
    (h : (Text.Utf8.encode (Message.mk seq type (.request command arguments)).toJson.text).length <
      UInt64.size) {r : Request} :
    (Envelope.ofMessage ⟨seq, type, .request command arguments⟩ h).Asks r ↔
      (arguments.getD .null).nesting < Json.Progress.depthLimit ∧
        ∃ j, (arguments.getD .null).reread = some j ∧ r = ⟨seq, command, j.canonical⟩ := by
  have hnesting := nesting_toJson_request seq type command arguments
  have hfields : Json.rereadMembers (Content.request command arguments).fields =
      (arguments.getD .null).reread.map fun j =>
        [("command", .string command), ("arguments", j)] := by
    simp only [Content.fields, Json.rereadMembers, Json.reread, Option.bind_some, Option.map_some]
    cases (arguments.getD .null).reread <;> rfl
  constructor
  · intro hr
    obtain ⟨members, hmembers, -⟩ := id hr
    rw [Envelope.document?_ofMessage h hseq, hnesting, hfields] at hmembers
    split at hmembers
    · rename_i hdepth
      cases hj : (arguments.getD .null).reread with
      | none =>
          rw [hj] at hmembers
          cases hmembers
      | some j =>
          rw [hj] at hfields
          obtain ⟨⟨number, hnumber, hread⟩, -, hcommand, hvalue⟩ :=
            (Envelope.asks_ofMessage h hseq (hnesting ▸ hdepth) hfields).1 hr
          obtain rfl : Json.ofNat seq = number := (List.cons.inj hnumber).1
          have hseq' : seq = r.seq := Option.some.inj ((Json.nat64?_ofNat hseq).symm.trans hread)
          have hcommand' : command = r.command := Json.string.inj (List.cons.inj hcommand).1
          rcases hvalue with ⟨hnone, -⟩ | ⟨j', hsome, harguments⟩
          · cases hnone
          · obtain rfl : j = j' := (List.cons.inj hsome).1
            exact ⟨hdepth, j, rfl, by rw [hseq', hcommand', ← harguments]⟩
    · cases hmembers
  · rintro ⟨hdepth, j, hj, rfl⟩
    rw [hj] at hfields
    exact (Envelope.asks_ofMessage h hseq (hnesting ▸ hdepth) hfields).2
      ⟨⟨_, rfl, Json.nat64?_ofNat hseq⟩, ⟨_, rfl⟩, rfl, .inr ⟨_, rfl, rfl⟩⟩

/-! ## Runs -/

/-- A host without files. -/
def noFiles : Host where
  text? _ _ := none
  refusal? _ := none

/-- A server that was just started. -/
def justStarted : Server (Debug.Agent Machine.State) := { config := {}, fallback := "/" }

/-- An event. -/
def stoppedMessage : Message := .ofContent 1 (.event "stopped" none)

/-- A response. -/
def disconnectedMessage : Message := .ofContent 1 (.response 1 true "disconnect" none none)

/-- A request. -/
def threadsMessage : Message := .ofContent 2 (.request "threads" none)

theorem threadsMessage_length :
    (Text.Utf8.encode threadsMessage.toJson.text).length < UInt64.size :=
  length_encode_text_lt (by decide)

theorem asks_threadsMessage :
    (Envelope.ofMessage threadsMessage threadsMessage_length).Asks ⟨2, "threads", .null⟩ :=
  (Envelope.asks_request_iff (by decide) "request" "threads" none threadsMessage_length).2
    ⟨by decide, .null, rfl, rfl⟩

section

variable {π : Type} [Target π]

/-- What a run makes of an input shows in the requests in it and in how it ends. -/
theorem Server.run_eq (fuel : Nat) (setting : Setting π) (s : Server π) (bytes : List UInt8) :
    s.run fuel setting bytes =
      (s.serve fuel setting (requestsIn bytes)).map fun (sent, last, flow) =>
        (transcript sent last, if flow = .stop then none else (Input.readAll bytes).2) := by
  rw [requestsIn, Server.run]
  rcases Input.readAll bytes with ⟨messages, ending⟩
  dsimp only
  cases s.serve fuel setting (messages.filterMap Message.request?) <;> rfl

/-- A run over envelopes alone serves the requests in them. -/
theorem Server.run_bytesOf (fuel : Nat) (setting : Setting π) (s : Server π)
    (envelopes : List Envelope) :
    s.run fuel setting (bytesOf envelopes) =
      (s.serve fuel setting (envelopes.filterMap Envelope.request?)).map fun (sent, last, _) =>
        (transcript sent last, none) := by
  obtain ⟨hread, hending⟩ := requestsIn_envelopes envelopes []
  rw [List.append_nil] at hread hending
  rw [Server.run_eq, hread, hending, requestsIn, Input.readAll_nil]
  simp

theorem Server.run_of_asks {envelopes : List Envelope} {requests : List Request}
    (h : List.Forall₂ Envelope.Asks envelopes requests) (fuel : Nat) (setting : Setting π)
    (s : Server π) :
    s.run fuel setting (bytesOf envelopes) =
      (s.serve fuel setting requests).map fun (sent, last, _) => (transcript sent last, none) := by
  have hrequests : envelopes.filterMap Envelope.request? = requests := by
    induction h with
    | nil => rfl
    | cons hr _ ih => rw [List.filterMap_cons_some (Envelope.request?_eq_some_iff.2 hr), ih]
  rw [Server.run_bytesOf, hrequests]

/-- Behind any envelopes and in front of any bytes, an envelope that asks for nothing plays no role:
nothing is written for it, the server is afterwards as if it had not come, and the run does not end
by it. One that asks for something is served as the request that its number, its command and its
arguments make, whichever text stands under its type. -/
theorem only_commands_run (front : List Envelope) (e : Envelope) (rest : List UInt8) :
    ((∀ r, ¬e.Asks r) →
      requestsIn (bytesOf front ++ (e.bytes ++ rest)) = requestsIn (bytesOf front ++ rest) ∧
        ∀ (fuel : Nat) (setting : Setting π) (s : Server π),
          s.run fuel setting (bytesOf front ++ (e.bytes ++ rest)) =
            s.run fuel setting (bytesOf front ++ rest)) ∧
      ∀ r, e.Asks r →
        requestsIn (bytesOf front ++ (e.bytes ++ rest)) =
          requestsIn (bytesOf front) ++ r :: requestsIn rest := by
  have hplace : ∀ back, requestsIn (bytesOf front ++ back) =
      requestsIn (bytesOf front) ++ requestsIn back := by
    intro back
    have hfront := (requestsIn_envelopes front []).1
    rw [List.append_nil, requestsIn, requestsIn, Input.readAll_nil, List.filterMap_nil,
      List.append_nil, ← requestsIn] at hfront
    rw [(requestsIn_envelopes front back).1, hfront]
  obtain ⟨hrequests, hending⟩ := requestsIn_envelopes [e] rest
  rw [bytesOf, List.flatMap_singleton] at hrequests hending
  constructor
  · intro hnothing
    have hnone : e.request? = none := Option.eq_none_iff_forall_ne_some.2 fun r hr =>
      hnothing r (Envelope.request?_eq_some_iff.1 hr)
    have hsame : requestsIn (bytesOf front ++ (e.bytes ++ rest)) =
        requestsIn (bytesOf front ++ rest) := by
      rw [hplace, hplace, hrequests, List.filterMap_cons_none hnone]
      rfl
    refine ⟨hsame, fun fuel setting s => ?_⟩
    rw [Server.run_eq, Server.run_eq, hsame, (requestsIn_envelopes front (e.bytes ++ rest)).2,
      hending, (requestsIn_envelopes front rest).2]
  · intro r hr
    rw [hplace, hrequests, List.filterMap_cons_some (Envelope.request?_eq_some_iff.2 hr)]
    rfl

end

/-- An event is left out. -/
theorem only_commands_run_event :
    (∀ r, ¬(Envelope.ofMessage stoppedMessage (by decide +kernel)).Asks r) ∧
      justStarted.run 0 (Console.setting noFiles) (stoppedMessage.encode ++ threadsMessage.encode) =
        justStarted.run 0 (Console.setting noFiles) threadsMessage.encode := by
  have hlength : (Text.Utf8.encode stoppedMessage.toJson.text).length < UInt64.size :=
    length_encode_text_lt (by decide)
  have hasks : ∀ r, ¬(Envelope.ofMessage stoppedMessage hlength).Asks r := by
    intro r hr
    cases ((Envelope.asks_ofMessage hlength (by decide) (by decide) rfl).1 hr).command
  exact ⟨hasks, ((only_commands_run [] (.ofMessage stoppedMessage hlength)
    threadsMessage.encode).1 hasks).2 0 (Console.setting noFiles) justStarted⟩

/-- A response is run as a request for the command that it answers. Here it ends the run, so that
the request behind it, which alone would be answered, is not. -/
theorem response_ends_run :
    disconnectedMessage.type = "response" ∧
      justStarted.run 0 (Console.setting noFiles)
          (disconnectedMessage.encode ++ threadsMessage.encode) =
        some ([.ofContent 1 (.response 1 true "disconnect" none none)], none) ∧
      justStarted.run 0 (Console.setting noFiles) threadsMessage.encode =
        some ([.ofContent 1 (.response 2 true "threads" none (some threads.canonical))], none) := by
  have hlength : (Text.Utf8.encode disconnectedMessage.toJson.text).length < UInt64.size :=
    length_encode_text_lt (by decide)
  have hdisconnect : (Envelope.ofMessage disconnectedMessage hlength).Asks
      ⟨1, "disconnect", .null⟩ :=
    (Envelope.asks_ofMessage hlength (by decide) (by decide) rfl).2
      ⟨⟨_, rfl, rfl⟩, ⟨_, rfl⟩, rfl, .inl ⟨rfl, rfl⟩⟩
  have hboth := Server.run_of_asks (.cons hdisconnect (.cons asks_threadsMessage .nil)) 0
    (Console.setting noFiles) justStarted
  have hone := Server.run_of_asks (.cons asks_threadsMessage .nil) 0 (Console.setting noFiles)
    justStarted
  rw [bytesOf, List.flatMap_cons, List.flatMap_singleton] at hboth
  rw [bytesOf, List.flatMap_singleton] at hone
  exact ⟨rfl, hboth, hone⟩

end Adapter

end ScriptDebugger
