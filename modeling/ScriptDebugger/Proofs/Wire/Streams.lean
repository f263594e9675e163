import ScriptDebugger.Proofs.Wire.Messages
/-!
# Bytes on their way

What a reader will hand out depends on the bytes that it has read and on those that are on their way
to it, and it may be in the middle of a frame already. So bytes are compared by what comes of them,
whatever may come behind: a decoder stands for some bytes if it hands out what a new one would that
holds them. A write that fails leaves the front part of a frame, which is no message.

## Main results

* `StandsFor.refill` — reading on where there is no whole message changes nothing.
* `StandsFor.handsOut_frame` — a decoder that stands for a frame hands out its message and is empty.
* `StandsFor.not_handsOut_torn` — one that stands for a part of a frame hands out nothing.
-/

namespace ScriptDebugger.Wire

/-- What a failed write leaves of a frame. -/
structure TornFrom (frame bytes : List UInt8) : Prop where
  front : bytes <+: frame
  short : bytes ≠ frame
  size : frame.length < UInt64.size

section

variable {α : Type} {read : List UInt8 → Option α} {d d' : Decoder} {held back : List UInt8} {m : α}

/-- A decoder hands out what a new one would that holds some bytes, whatever may come behind. -/
def StandsFor (read : List UInt8 → Option α) (d : Decoder) (held : List UInt8) : Prop :=
  ∀ more, (d.extend more).nextMessage read = (⟨held ++ more, none⟩ : Decoder).nextMessage read

theorem standsFor_empty : StandsFor read {} [] := fun _ => rfl

theorem StandsFor.extend (h : StandsFor read d held) (bytes : List UInt8) :
    StandsFor read (d.extend bytes) (held ++ bytes) := by
  intro more
  rw [Decoder.extend_extend, h, List.append_assoc]

theorem StandsFor.extend_append {front bytes : List UInt8}
    (h : StandsFor read (d.extend front) held) :
    StandsFor read (d.extend (front ++ bytes)) (held ++ bytes) := by
  rw [← Decoder.extend_extend]
  exact h.extend bytes

/-- Reading on where there is no whole message changes nothing. -/
theorem StandsFor.refill {front : List UInt8} (h : StandsFor read (d.extend (front ++ back)) held)
    (hnext : d.nextMessage read = (d', none)) :
    StandsFor read ((d'.extend front).extend back) held := by
  intro more
  have hall := h more
  rw [Decoder.extend_extend, List.append_assoc] at hall
  rw [Decoder.extend_extend, Decoder.extend_extend, ← Decoder.nextMessage_extend_of_none hnext]
  exact hall

theorem StandsFor.handsOut (h : StandsFor read (d.extend back) held)
    (hnext : d.nextMessage read = (d', some m)) :
    (⟨held, none⟩ : Decoder).nextMessage read = (d'.extend back, some m) := by
  have hall := h []
  rw [Decoder.extend_extend, List.append_nil, List.append_nil,
    Decoder.nextMessage_extend_of_some hnext] at hall
  exact hall.symm

/-- A frame is handed out as its message, and nothing is left. -/
theorem StandsFor.handsOut_frame {payload : List UInt8}
    (h : StandsFor read (d.extend back) (encodeFrame payload))
    (hsize : (encodeFrame payload).length < UInt64.size)
    (hnext : d.nextMessage read = (d', some m)) :
    read payload = some m ∧ StandsFor read (d'.extend back) [] := by
  have hall := h.handsOut hnext
  rw [nextMessage_encodeFrame (length_lt_of_encodeFrame hsize)] at hall
  obtain ⟨hempty, hread⟩ := Prod.mk.inj hall
  refine ⟨hread, ?_⟩
  rw [← hempty]
  exact standsFor_empty

/-- What a failed write leaves of some frame. -/
def IsTorn (bytes : List UInt8) : Prop := ∃ payload, TornFrom (encodeFrame payload) bytes

theorem isTorn_nil : IsTorn [] :=
  ⟨[], List.nil_prefix, by decide +kernel, by decide +kernel⟩

/-- A part of a frame is no message. -/
theorem StandsFor.not_handsOut_torn (htorn : IsTorn held)
    (h : StandsFor read (d.extend back) held) : d.nextMessage read ≠ (d', some m) := by
  intro hnext
  obtain ⟨payload, ⟨rest, hrest⟩, hshort, hsize⟩ := htorn
  have hall := Decoder.nextMessage_extend_of_some (h.handsOut hnext) rest
  have hframe : (⟨held, none⟩ : Decoder).extend rest = ⟨encodeFrame payload, none⟩ := by
    rw [← hrest]
    rfl
  rw [hframe, nextMessage_encodeFrame (length_lt_of_encodeFrame hsize)] at hall
  have hempty : [] = d'.buffer ++ back ++ rest := congrArg Decoder.buffer (Prod.mk.inj hall).1
  obtain ⟨-, rfl⟩ := List.append_eq_nil_iff.1 hempty.symm
  exact hshort (by rw [← hrest, List.append_nil])

end

end ScriptDebugger.Wire
