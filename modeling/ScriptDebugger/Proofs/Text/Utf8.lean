import ScriptDebugger.Text.Utf8
/-!
# Text and its bytes

A text is written character by character, and what was written reads back. Bytes below 128 are
characters of their own, read leniently or not.

## Main results

* `encode_ofList`, `encode_eq` — writing goes character by character.
* `decode?_encode` — a text reads back from its bytes.
* `decodeLossy_encode_of_ascii` — so does one of ASCII characters when it is read leniently.
-/

namespace ScriptDebugger.Text.Utf8

theorem toList_loop (bytes : ByteArray) (i : Nat) (front : List UInt8) :
    ByteArray.toList.loop bytes i front = front.reverse ++ bytes.data.toList.drop i := by
  induction i, front using ByteArray.toList.loop.induct bytes with
  | case1 i front hlt ih =>
      have hi : i < bytes.data.toList.length := hlt
      have hget : bytes.get! i = bytes.data.toList[i] := getElem!_pos bytes.data i hlt
      rw [ByteArray.toList.loop, if_pos hlt, ih, List.drop_eq_getElem_cons hi, hget,
        List.reverse_cons, List.append_assoc]
      rfl
  | case2 i front hge =>
      have hi : bytes.data.toList.length ≤ i := Nat.le_of_not_lt hge
      rw [ByteArray.toList.loop, if_neg hge, List.drop_eq_nil_of_le hi, List.append_nil]

theorem toList_eq (bytes : ByteArray) : bytes.toList = bytes.data.toList := by
  rw [ByteArray.toList, toList_loop]
  rfl

theorem encode_ofList (cs : List Char) :
    encode (String.ofList cs) = cs.flatMap String.utf8EncodeChar := by
  rw [encode, toList_eq, String.toUTF8_eq_toByteArray, String.toByteArray_ofList, List.utf8Encode,
    List.toList_data_toByteArray]

theorem encode_eq (s : String) : encode s = s.toList.flatMap String.utf8EncodeChar := by
  rw [← encode_ofList, String.ofList_toList]

theorem length_encode_le (s : String) : (encode s).length ≤ 4 * s.toList.length := by
  rw [encode_eq]
  generalize s.toList = cs
  induction cs with
  | nil => exact Nat.le_refl 0
  | cons c cs ih =>
      have hc : (String.utf8EncodeChar c).length ≤ 4 := by
        rw [String.length_utf8EncodeChar]
        exact c.utf8Size_le_four
      rw [List.flatMap_cons, List.length_append, List.length_cons]
      omega

/-- A text reads back from its bytes. -/
theorem decode?_encode (s : String) : decode? (encode s) = some s := by
  have hbytes : (⟨(encode s).toArray⟩ : ByteArray) = s.toByteArray := by
    rw [encode, toList_eq, String.toUTF8_eq_toByteArray, Array.toArray_toList]
  rw [decode?, hbytes, String.fromUTF8?, dif_pos s.isValidUTF8]
  rfl

/-! ## ASCII -/

/-- Whether a character is one byte. -/
def IsAscii (c : Char) : Prop := c.toNat < 128

theorem utf8EncodeChar_of_isAscii {c : Char} (h : IsAscii c) :
    String.utf8EncodeChar c = [c.toNat.toUInt8] := by
  have hle : c.val.toNat ≤ 0x7f := Nat.le_of_lt_succ h
  rw [String.utf8EncodeChar, if_pos hle]
  rfl

theorem encode_of_isAscii {s : String} (h : ∀ c ∈ s.toList, IsAscii c) :
    encode s = s.toList.map fun c => c.toNat.toUInt8 := by
  rw [encode_eq]
  generalize s.toList = cs at h
  induction cs with
  | nil => rfl
  | cons c cs ih =>
      rw [List.flatMap_cons, utf8EncodeChar_of_isAscii (h c List.mem_cons_self),
        ih fun d hd => h d (List.mem_cons_of_mem c hd)]
      rfl

theorem toNat_toUInt8_of_isAscii {c : Char} (h : IsAscii c) :
    c.toNat.toUInt8.toNat = c.toNat := by
  have hlt : c.toNat < 256 := Nat.lt_trans h (by decide)
  simp [Nat.mod_eq_of_lt hlt]

/-- ASCII characters read back leniently, whatever stands behind them. -/
theorem decodeLossyFrom_of_isAscii {cs : List Char} (h : ∀ c ∈ cs, IsAscii c)
    (rest : List UInt8) :
    decodeLossyFrom none ((cs.map fun c => c.toNat.toUInt8) ++ rest) =
      cs ++ decodeLossyFrom none rest := by
  induction cs with
  | nil => rfl
  | cons c cs ih =>
      have hc : IsAscii c := h c List.mem_cons_self
      have hstart : start c.toNat = ([c], none) := by
        rw [start, if_pos (show c.toNat < 0x80 from hc), Char.ofNat_toNat]
      rw [List.map_cons, List.cons_append, decodeLossyFrom, feed, toNat_toUInt8_of_isAscii hc,
        hstart, List.cons_append, ← ih fun d hd => h d (List.mem_cons_of_mem c hd)]
      rfl

theorem decodeLossy_encode_of_ascii {s : String} (h : ∀ c ∈ s.toList, IsAscii c) :
    decodeLossy (encode s) = s := by
  have hread := decodeLossyFrom_of_isAscii h []
  rw [List.append_nil] at hread
  rw [encode_of_isAscii h, decodeLossy, hread, decodeLossyFrom]
  simp

end ScriptDebugger.Text.Utf8
