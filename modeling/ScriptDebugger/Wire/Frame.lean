import ScriptDebugger.Text.Quoted
import ScriptDebugger.Text.Utf8
/-!
# Frames

A message travels as a frame: the number of its bytes in decimal, a line feed, and the bytes. The
decoder takes bytes as they come and hands out frames as they get complete. A line that is no
length is handed out as such, and decoding goes on behind it.

## Main results

* `next_weight_lt` — every frame or malformed line uses up some of what the decoder holds.
-/

namespace ScriptDebugger.Wire

/-- The frame of a payload. -/
def encodeFrame (payload : List UInt8) : List UInt8 :=
  Text.Utf8.encode (toString payload.length) ++ 10 :: payload

/-- What the decoder hands out. -/
inductive Frame
  /-- The bytes of a frame. -/
  | payload (bytes : List UInt8)
  /-- A line that is no length. -/
  | malformed (line : String)
  deriving DecidableEq

/-- The message for a line that is no length. -/
def malformedMessage (line : String) : String := "malformed length prefix " ++ Text.quoted line

/-- Bytes that have come and were not handed out. -/
structure Decoder where
  /-- The bytes, without a length line that was read already. -/
  buffer : List UInt8 := []
  /-- The length of the frame whose line was read. -/
  expected : Option Nat := none
  deriving DecidableEq

/-- The number that digits write, if it is one of at most `2 ^ 64 - 1`. -/
def readLength? (cs : List Char) : Option Nat :=
  let digits := match cs with
    | '+' :: rest => rest
    | rest => rest
  if digits ≠ [] ∧ digits.all Char.isDigit then
    let n := digits.foldl (fun n c => n * 10 + (c.toNat - '0'.toNat)) 0
    if n < UInt64.size then some n else none
  else none

/-- A length line without the carriage returns at its end. -/
def lineText (line : List UInt8) : List Char :=
  ((Text.Utf8.decodeLossy line).toList.reverse.dropWhile (· == '\r')).reverse

namespace Decoder

/-- Takes further bytes. -/
def extend (d : Decoder) (bytes : List UInt8) : Decoder := { d with buffer := d.buffer ++ bytes }

/-- How many bytes are held. -/
def buffered (d : Decoder) : Nat := d.buffer.length

/-- Hands out the payload, once all of its bytes are there. -/
def takePayload (buffer : List UInt8) (length : Nat) : Decoder × Option Frame :=
  if buffer.length < length then (⟨buffer, some length⟩, none)
  else (⟨buffer.drop length, none⟩, some (.payload (buffer.take length)))

/-- Hands out the next frame, if it is complete. -/
def next (d : Decoder) : Decoder × Option Frame :=
  match d.expected with
  | some length => takePayload d.buffer length
  | none =>
    match d.buffer.dropWhile (· != 10) with
    | [] => (d, none)
    | _ :: rest =>
      let line := lineText (d.buffer.takeWhile (· != 10))
      match readLength? line with
      | some length => takePayload rest length
      | none => (⟨rest, none⟩, some (.malformed (String.ofList line)))

/-- Measures what the decoder holds. -/
def weight (d : Decoder) : Nat := 2 * d.buffer.length + if d.expected.isSome then 1 else 0

theorem takePayload_weight_le {buffer : List UInt8} {length : Nat} {d : Decoder} {f : Frame}
    (h : takePayload buffer length = (d, some f)) : d.weight ≤ 2 * buffer.length := by
  unfold takePayload at h
  split at h
  · simp at h
  · simp only [Prod.mk.injEq, Option.some.injEq] at h
    obtain ⟨rfl, _⟩ := h
    simp only [weight, List.length_drop, Option.isSome_none, Bool.false_eq_true, if_false]
    omega

theorem length_dropWhile_le {α : Type} (p : α → Bool) (l : List α) :
    (l.dropWhile p).length ≤ l.length :=
  (List.dropWhile_sublist p).length_le

theorem next_weight_lt {d d' : Decoder} {f : Frame} (h : d.next = (d', some f)) :
    d'.weight < d.weight := by
  unfold next at h
  split at h
  · rename_i length hexp
    have := takePayload_weight_le h
    simp only [weight, hexp]
    simp only [weight] at this
    simp only [Option.isSome_some, if_true]
    omega
  · rename_i hexp
    have hlen := length_dropWhile_le (· != 10) d.buffer
    split at h
    · simp at h
    · rename_i b rest hrest
      rw [hrest] at hlen
      simp only [List.length_cons] at hlen
      simp only at h
      split at h
      · have := takePayload_weight_le h
        simp only [weight, hexp, Option.isSome_none] at this ⊢
        omega
      · simp only [Prod.mk.injEq, Option.some.injEq] at h
        obtain ⟨rfl, _⟩ := h
        simp only [weight, hexp, Option.isSome_none]
        omega

/-- Hands out the next message: frames that `read` refuses and malformed lines are skipped. -/
def nextMessage {α : Type} (read : List UInt8 → Option α) (d : Decoder) : Decoder × Option α :=
  match _hnext : d.next with
  | (d', none) => (d', none)
  | (d', some (.malformed _)) => nextMessage read d'
  | (d', some (.payload bytes)) =>
    match read bytes with
    | some message => (d', some message)
    | none => nextMessage read d'
termination_by d.weight
decreasing_by
  · exact next_weight_lt _hnext
  · exact next_weight_lt _hnext

end Decoder

end ScriptDebugger.Wire
