import ScriptDebugger.Wire.Frame
/-!
# Links

What one read of a byte stream may yield, and how frames and messages are read from a stream of such
reads. An interrupted read is repeated; any other failure ends the reading.
-/

namespace ScriptDebugger.Wire

/-- The outcome of one read; the end of a stream is the end of its reads. -/
inductive Read
  /-- Some bytes. -/
  | bytes (bytes : List UInt8)
  /-- Nothing, for a reason that goes away. -/
  | interrupted
  /-- A failure. -/
  | failed
  deriving DecidableEq

/-- How a reading ends. -/
inductive Ending
  /-- At the end of the stream. -/
  | closed
  /-- By a failure. -/
  | failed
  deriving DecidableEq, Repr

/-- All that `take` finds in what the decoder holds, up to `limit` items. -/
def takeAll {α : Type} (take : Decoder → Decoder × Option α) :
    (limit : Nat) → Decoder → Decoder × List α
  | 0, d => (d, [])
  | limit + 1, d =>
    match take d with
    | (d', none) => (d', [])
    | (d', some a) =>
      let (d'', rest) := takeAll take limit d'
      (d'', a :: rest)

/-- Fills the decoder: takes the first read that is not interrupted. Reading ends where there is no
read left, where a read has no bytes, and where it fails. -/
def fill (d : Decoder) : List Read → Decoder × List Read × Option Ending
  | [] => (d, [], some .closed)
  | .interrupted :: reads => fill d reads
  | .failed :: reads => (d, reads, some .failed)
  | .bytes [] :: reads => (d, reads, some .closed)
  | .bytes (b :: bytes) :: reads => (d.extend (b :: bytes), reads, none)

theorem fill_length_lt {d d' : Decoder} {reads reads' : List Read}
    (h : fill d reads = (d', reads', none)) : reads'.length < reads.length := by
  induction reads with
  | nil => simp [fill] at h
  | cons first reads ih =>
      match first with
      | .interrupted => exact Nat.lt_succ_of_lt (ih h)
      | .failed => simp [fill] at h
      | .bytes [] => simp [fill] at h
      | .bytes (_ :: _) =>
          obtain ⟨-, rfl⟩ : _ = d' ∧ reads = reads' := by simpa [fill] using h
          exact Nat.lt_succ_self _

/-- A decoder that fills itself. -/
structure Reader where
  /-- What was read and not handed out. -/
  decoder : Decoder := {}
  /-- The reads to come. -/
  reads : List Read

/-- What a reader says when it is asked for an item. -/
inductive Answer (α : Type)
  /-- There is one. -/
  | item (a : α)
  /-- There is none, and reading has ended. -/
  | ended (ending : Ending)
  deriving DecidableEq, Repr

/-- Hands out the next item, reading until it is complete. -/
def Reader.get {α : Type} (take : Decoder → Decoder × Option α) (r : Reader) : Reader × Answer α :=
  match take r.decoder with
  | (d, some a) => ({ r with decoder := d }, .item a)
  | (d, none) =>
    match _hfill : fill d r.reads with
    | (d, reads, some ending) => (⟨d, reads⟩, .ended ending)
    | (d, reads, none) => Reader.get take ⟨d, reads⟩
termination_by r.reads.length
decreasing_by exact fill_length_lt _hfill

/-- The items that a reader hands out one after another, up to `limit` of them, and how reading
ends. -/
def Reader.getAll {α : Type} (take : Decoder → Decoder × Option α) :
    (limit : Nat) → Reader → List α × Ending
  | 0, _ => ([], .closed)
  | limit + 1, r =>
    match r.get take with
    | (_, .ended ending) => ([], ending)
    | (r, .item a) =>
      let (rest, ending) := getAll take limit r
      (a :: rest, ending)

/-- How many bytes there are in reads. -/
def byteCount : List Read → Nat
  | [] => 0
  | .bytes piece :: reads => piece.length + byteCount reads
  | .interrupted :: reads | .failed :: reads => byteCount reads

/-- All items in a stream that comes in pieces, and how the reading ends; a piece without bytes is no
read. Every item uses up some of the decoder's weight, which bounds their number. -/
def readAll {α : Type} (take : Decoder → Decoder × Option α) (d : Decoder) (pieces : List Read) :
    List α × Ending :=
  Reader.getAll take (d.weight + 2 * byteCount pieces + 1) ⟨d, pieces.filter (· != .bytes [])⟩

/-- The payload of the next frame; malformed lines are skipped. -/
def nextPayload (d : Decoder) : Decoder × Option (List UInt8) := d.nextMessage some

end ScriptDebugger.Wire
