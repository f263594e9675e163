/-!
# UTF-8

Bytes become text in two ways: strictly, where one wrong byte refuses the whole, and leniently,
where every maximal piece that starts no character becomes one replacement character.
-/

namespace ScriptDebugger.Text.Utf8

/-- The bytes of a text. -/
def encode (s : String) : List UInt8 := s.toUTF8.toList

/-- The text whose bytes these are, if there is one. -/
def decode? (bytes : List UInt8) : Option String := String.fromUTF8? ⟨bytes.toArray⟩

/-- A character that is not complete: the bits read so far, the bytes still owed, and the range
that the next byte must lie in. -/
structure Pending where
  /-- The bits of the code point read so far. -/
  bits : Nat
  /-- How many continuation bytes are owed. -/
  owed : Nat
  /-- The least next byte. -/
  low : Nat
  /-- The greatest next byte. -/
  high : Nat

/-- What stands in the place of bytes that are no character. -/
def replacement : Char := '\uFFFD'

/-- A byte between characters: what it shows, and the character that it opens. -/
def start (b : Nat) : List Char × Option Pending :=
  if b < 0x80 then ([Char.ofNat b], none)
  else if b < 0xC2 then ([replacement], none)
  else if b < 0xE0 then ([], some ⟨b - 0xC0, 1, 0x80, 0xBF⟩)
  else if b = 0xE0 then ([], some ⟨0, 2, 0xA0, 0xBF⟩)
  else if b = 0xED then ([], some ⟨0xD, 2, 0x80, 0x9F⟩)
  else if b < 0xF0 then ([], some ⟨b - 0xE0, 2, 0x80, 0xBF⟩)
  else if b = 0xF0 then ([], some ⟨0, 3, 0x90, 0xBF⟩)
  else if b < 0xF4 then ([], some ⟨b - 0xF0, 3, 0x80, 0xBF⟩)
  else if b = 0xF4 then ([], some ⟨4, 3, 0x80, 0x8F⟩)
  else ([replacement], none)

/-- One byte: the characters that it completes or gives up, and the character then pending. -/
def feed (pending : Option Pending) (b : Nat) : List Char × Option Pending :=
  match pending with
  | none => start b
  | some p =>
    if p.low ≤ b ∧ b ≤ p.high then
      let bits := p.bits * 64 + (b - 0x80)
      if p.owed ≤ 1 then ([Char.ofNat bits], none) else ([], some ⟨bits, p.owed - 1, 0x80, 0xBF⟩)
    else
      let (shown, next) := start b
      (replacement :: shown, next)

/-- The characters of the bytes after a pending character. -/
def decodeLossyFrom (pending : Option Pending) : List UInt8 → List Char
  | [] => if pending.isSome then [replacement] else []
  | b :: bs =>
    let (shown, next) := feed pending b.toNat
    shown ++ decodeLossyFrom next bs

/-- The text of the bytes, with one replacement character for each maximal piece that is no part of
a character. -/
def decodeLossy (bytes : List UInt8) : String := String.ofList (decodeLossyFrom none bytes)

end ScriptDebugger.Text.Utf8
