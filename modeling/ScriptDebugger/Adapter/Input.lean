import ScriptDebugger.Adapter.Message
import ScriptDebugger.Text.Blank
import ScriptDebugger.Wire.Frame
/-!
# The adapter's input

Bodies come one after another, each behind header lines and an empty line. Of the lines that name a
length the last one counts; without one, or with the length zero, there is no body and the next
headers begin. The reader takes bytes as they come.

## Main results

* `readLine_length_lt` — a header line uses up some of the bytes.
-/

namespace ScriptDebugger.Adapter

/-- Why the input cannot be read on. -/
inductive InputError
  /-- It ends within a body. -/
  | endsInBody
  /-- A header line is no text. -/
  | headerNotText
  deriving DecidableEq, Repr

/-- What a header line means for the length of the body: it ends the headers, or they go on with a
length. -/
inductive Header
  /-- The empty line. -/
  | finish
  /-- A line after which the body has so many bytes. -/
  | length (n : Nat)
  deriving DecidableEq, Repr

/-- The characters behind the name of the length, if a header line begins with it. -/
def lengthField? (cs : List Char) : Option (List Char) :=
  let name := "Content-Length:".toList
  if name.isPrefixOf cs then some (cs.drop name.length) else none

/-- What a header line means, the length being `n` before it. A length that is no number counts as
zero. -/
def Header.ofLine (n : Nat) (line : String) : Header :=
  let cs := Text.dropBlanksRight line.toList
  if cs = [] then .finish
  else
    match lengthField? cs with
    | some value => .length ((Wire.readLength? (Text.trimmed value)).getD 0)
    | none => .length n

/-- Where the reader stands. -/
inductive Phase
  /-- Among header lines; the body will have so many bytes. -/
  | headers (length : Nat)
  /-- In front of a body. -/
  | body (length : Nat)
  deriving DecidableEq, Repr

/-- Bytes that have come and were not handed out. -/
structure Input where
  /-- The bytes. -/
  buffer : List UInt8 := []
  /-- Where the first of them stands. -/
  phase : Phase := .headers 0
  deriving DecidableEq

/-- What the reader hands out. -/
inductive Piece
  /-- A body. -/
  | body (bytes : List UInt8)
  /-- Nothing; bytes are missing. -/
  | incomplete
  /-- Nothing, and never again. -/
  | failed (error : InputError)
  deriving DecidableEq

/-- The first line without its line feed, and what follows it. -/
def readLine? (bytes : List UInt8) : Option (List UInt8 × List UInt8) :=
  match bytes.dropWhile (· != 10) with
  | [] => none
  | _ :: rest => some (bytes.takeWhile (· != 10), rest)

theorem readLine_length_lt {bytes line rest : List UInt8}
    (h : readLine? bytes = some (line, rest)) : rest.length < bytes.length := by
  unfold readLine? at h
  have hle : (bytes.dropWhile (· != 10)).length ≤ bytes.length := (List.dropWhile_sublist _).length_le
  split at h
  · simp at h
  · rename_i heq
    rw [heq] at hle
    simp only [Option.some.injEq, Prod.mk.injEq] at h
    obtain ⟨_, rfl⟩ := h
    simp only [List.length_cons] at hle
    omega

namespace Input

/-- Takes further bytes. -/
def extend (i : Input) (bytes : List UInt8) : Input := { i with buffer := i.buffer ++ bytes }

/-- Hands out a body, once all of its bytes are there. -/
def takeBody (buffer : List UInt8) (length : Nat) : Input × Piece :=
  if buffer.length < length then (⟨buffer, .body length⟩, .incomplete)
  else (⟨buffer.drop length, .headers 0⟩, .body (buffer.take length))

/-- Reads header lines, and the body behind them. -/
def readHeaders (length : Nat) (buffer : List UInt8) : Input × Piece :=
  match _h : readLine? buffer with
  | none => (⟨buffer, .headers length⟩, .incomplete)
  | some (line, rest) =>
    match Text.Utf8.decode? line with
    | none => (⟨rest, .headers length⟩, .failed .headerNotText)
    | some text =>
      match Header.ofLine length text with
      | .length n => readHeaders n rest
      | .finish => if length = 0 then readHeaders 0 rest else takeBody rest length
termination_by buffer.length
decreasing_by
  · exact readLine_length_lt _h
  · exact readLine_length_lt _h

/-- Hands out the next body, if it is complete. -/
def next (i : Input) : Input × Piece :=
  match i.phase with
  | .headers length => readHeaders length i.buffer
  | .body length => takeBody i.buffer length

/-- What it means that no further bytes come. A last line without a line feed still counts. -/
def atEnd (i : Input) : Option InputError :=
  match i.phase with
  | .body _ => some .endsInBody
  | .headers length =>
    if i.buffer = [] then none
    else
      match Text.Utf8.decode? i.buffer with
      | none => some .headerNotText
      | some text =>
        if Header.ofLine length text = .finish ∧ length ≠ 0 then some .endsInBody else none

/-- The messages among at most `limit` bodies, and why the input cannot be read on, if that is so.
Bodies that are no messages are skipped. -/
def messages (i : Input) : (limit : Nat) → List Message × Option InputError
  | 0 => ([], none)
  | limit + 1 =>
    match i.next with
    | (i, .incomplete) => ([], i.atEnd)
    | (_, .failed error) => ([], some error)
    | (i, .body bytes) =>
      let (rest, ending) := messages i limit
      (match Message.decode? bytes with
        | some m => (m :: rest, ending)
        | none => (rest, ending))

/-- The messages of a whole input. -/
def readAll (bytes : List UInt8) : List Message × Option InputError :=
  messages (extend {} bytes) (bytes.length + 1)

end Input

end ScriptDebugger.Adapter
