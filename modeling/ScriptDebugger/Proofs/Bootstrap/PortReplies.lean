import Mathlib.Data.Nat.Digits.Defs
import ScriptDebugger.Bootstrap.Rendezvous
import ScriptDebugger.Proofs.Text.Blanks
import ScriptDebugger.Proofs.Wire.Frames
/-!
# Replies of the rendezvous

A target stops reading a reply at its line feed, where it becomes too long, or at its end. In what
pieces the reply comes plays no role, and the port that was written is the one that is read.

## Main results

* `readPieces_eq` — pieces are read as what they are together.
* `readPort_portReply`, `readPort_noSession` — what is read of the replies that are written.
-/

namespace ScriptDebugger.Bootstrap

/-! ## Pieces -/

/-- Reads the pieces of a reply behind what was got of it, until there is a line feed, the limit is
reached or nothing more comes. -/
def readPieces (got : List UInt8) : List (List UInt8) → PortReply
  | [] => readPort got
  | piece :: rest =>
    if 10 ∈ got ∨ replyLimit ≤ got.length then readPort got else readPieces (got ++ piece) rest

/-- A line within the limit is read up to its line feed. -/
theorem firstLine_of_newline {line : List UInt8} (hline : 10 ∉ line)
    (hshort : line.length < replyLimit) (behind : List UInt8) :
    firstLine (line ++ 10 :: behind) = line ++ [10] := by
  obtain ⟨rest, hrest⟩ : ∃ rest, replyLimit - line.length = rest + 1 :=
    ⟨replyLimit - line.length - 1, by omega⟩
  have htake : (line ++ 10 :: behind).take replyLimit = line ++ 10 :: behind.take rest := by
    rw [List.take_append, List.take_of_length_le (Nat.le_of_lt hshort), hrest, List.take_succ_cons]
  have hother : ∀ b ∈ line, (b != 10) = true := by
    intro b hb
    rw [bne_iff_ne]
    rintro rfl
    exact hline hb
  have hwhile : (line ++ 10 :: behind.take rest).takeWhile (· != 10) = line := by
    rw [List.takeWhile_append_of_pos hother, List.takeWhile_cons_of_neg (by decide),
      List.append_nil]
  simp only [firstLine, htake, hwhile, List.drop_left, List.take_succ_cons, List.take_zero]

/-- Behind a line feed or the limit nothing counts. -/
theorem firstLine_append {got : List UInt8} (h : 10 ∈ got ∨ replyLimit ≤ got.length)
    (more : List UInt8) : firstLine (got ++ more) = firstLine got := by
  by_cases hlong : replyLimit ≤ got.length
  · rw [firstLine, firstLine, List.take_append_of_le_length hlong]
  · obtain ⟨line, behind, rfl, hline⟩ := List.eq_append_cons_of_mem (h.resolve_right hlong)
    have hshort : line.length < replyLimit := by
      rw [List.length_append, List.length_cons] at hlong
      omega
    rw [List.append_assoc, List.cons_append, firstLine_of_newline hline hshort,
      firstLine_of_newline hline hshort]

/-- Pieces are read as what they are together. -/
theorem readPieces_eq (got : List UInt8) (pieces : List (List UInt8)) :
    readPieces got pieces = readPort (got ++ pieces.flatten) := by
  induction pieces generalizing got with
  | nil => rw [readPieces, List.flatten_nil, List.append_nil]
  | cons piece rest ih =>
      rw [readPieces, List.flatten_cons]
      split
      · rename_i hstop
        rw [readPort, readPort, firstLine_append hstop]
      · rw [ih, List.append_assoc]

/-! ## What is written -/

theorem portReply_eq (port : Nat) :
    portReply port = Text.Utf8.encode (toString port) ++ [10] := by
  rw [portReply, Text.Utf8.encode_eq, Text.Utf8.encode_eq, String.toList_append,
    List.flatMap_append]
  rfl

/-- A port is read as it was written. -/
theorem readPort_portReply {port : Nat} (h : port < UInt16.size) :
    readPort (portReply port) = .session port := by
  have hne : (toString port).toList ≠ [] := Wire.toString_toList_ne_nil port
  have hdigits : ∀ c ∈ (toString port).toList, c.isDigit = true :=
    fun _ hc => Wire.isDigit_of_mem_toString hc
  have hascii : ∀ c ∈ (toString port).toList, Text.Utf8.IsAscii c :=
    fun c hc => Wire.isAscii_of_isDigit (hdigits c hc)
  have hlength : (Text.Utf8.encode (toString port)).length < replyLimit := by
    rw [Text.Utf8.encode_of_isAscii hascii, List.length_map, Nat.toString_eq_ofList_toDigits,
      String.toList_ofList]
    have hle := Nat.toDigits_length 10 port 5 (by decide) (Nat.lt_trans h (by decide))
    exact Nat.lt_of_le_of_lt hle (by decide)
  have hline : firstLine (portReply port) = portReply port := by
    rw [portReply_eq]
    exact firstLine_of_newline (Wire.newline_not_mem_encode_toString port) hlength []
  have hdecoded : Text.Utf8.decodeLossy (portReply port) = toString port ++ "\n" := by
    refine Text.Utf8.decodeLossy_encode_of_ascii fun c hc => ?_
    rw [String.toList_append] at hc
    rcases List.mem_append.1 hc with hc | hc
    · exact hascii c hc
    · obtain rfl := List.mem_singleton.1 hc
      show '\n'.toNat < 128
      decide
  have htext : Text.dropBlanksRight (Text.Utf8.decodeLossy (firstLine (portReply port))).toList =
      (toString port).toList := by
    rw [hline, hdecoded, String.toList_append]
    have hblank := Text.dropBlanksRight_append_blank (c := '\n') (toString port).toList (by decide)
    exact hblank.trans (Text.dropBlanksRight_append_digits [] hne hdigits)
  have hother : (toString port).toList ≠ noSession.toList := by
    intro hsame
    have hletter := hdigits 'n' (hsame ▸ by decide)
    cases hletter
  have hport : port? (toString port).toList = some port := by
    have hlong : port < UInt64.size := Nat.lt_trans h (by decide)
    rw [port?, Wire.readLength?_toString hlong, Option.filter_some, if_pos (by simpa using h)]
  simp only [readPort, htext, if_neg hother, hport]

/-- The reply without a port is read as one. -/
theorem readPort_noSession : readPort (Text.Utf8.encode noSession) = .noSession := by
  decide +kernel

end ScriptDebugger.Bootstrap
