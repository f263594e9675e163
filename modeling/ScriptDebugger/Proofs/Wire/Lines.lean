import ScriptDebugger.Proofs.Json.Tokens
import ScriptDebugger.Proofs.Wire.Messages
/-!
# Documents on one line

A written document has no line feed. So where its frame is longer than a length can say, nothing of
it is read: the line of the length is no length, and the document is a line that does not end. What
is read of the frame of a document is therefore the document's message or nothing, whatever the
document.

## Main results

* `newline_not_mem_encode_text` — a written document is one line.
* `nextMessage_encodeJson`, `takeAll_encodeJson` — what is read of the frame of a document.
-/

namespace ScriptDebugger

namespace Json

/-! ## The characters of a document -/

theorem newline_not_mem_of_continues {cs : List Char}
    (h : ∀ c ∈ cs, Token.continuesNumber c = true) : '\n' ∉ cs := by
  intro hmem
  have hnewline := h '\n' hmem
  cases hnewline

theorem newline_not_mem_stringChar (c : Char) : '\n' ∉ stringChar c := by
  have hdigit : ∀ n < 16, '\n' ≠ hexDigit n := by decide
  unfold stringChar
  split_ifs with _ _ _ _ hnewline _ _ hcontrol
  · decide
  · decide
  · decide
  · decide
  · decide
  · decide
  · decide
  · have hhigh : '\n' ≠ hexDigit (c.toNat / 16) := hdigit _ (by omega)
    have hlow : '\n' ≠ hexDigit (c.toNat % 16) := hdigit _ (Nat.mod_lt _ (by decide))
    simp [hhigh, hlow]
  · rw [List.mem_singleton]
    exact Ne.symm hnewline

theorem newline_not_mem_stringText (s : String) : '\n' ∉ stringText s := by
  have hchars : '\n' ∉ s.toList.flatMap stringChar := by
    intro hmem
    obtain ⟨c, -, hc⟩ := List.mem_flatMap.1 hmem
    exact newline_not_mem_stringChar c hc
  simp [stringText, hchars]

mutual

theorem newline_not_mem_render (j : Json) : '\n' ∉ render j := by
  cases j with
  | null => simp [render]
  | bool b => cases b <;> simp [render]
  | number n => exact newline_not_mem_of_continues (Token.isNumeric_text n).continues
  | string s => exact newline_not_mem_stringText s
  | array items =>
      have hitems := newline_not_mem_renderItems items
      simp [render, hitems]
  | object members =>
      have hmembers := newline_not_mem_renderMembers members
      simp [render, hmembers]

theorem newline_not_mem_renderItems (items : List Json) : '\n' ∉ renderItems items := by
  match items with
  | [] => simp [renderItems]
  | [j] =>
      rw [renderItems]
      exact newline_not_mem_render j
  | j :: k :: rest =>
      have hfirst := newline_not_mem_render j
      have hrest := newline_not_mem_renderItems (k :: rest)
      simp [renderItems_cons, hfirst, hrest]

theorem newline_not_mem_renderMembers (members : List (String × Json)) :
    '\n' ∉ renderMembers members := by
  match members with
  | [] => simp [renderMembers]
  | [(key, j)] =>
      have hkey := newline_not_mem_stringText key
      have hvalue := newline_not_mem_render j
      simp [renderMembers, hkey, hvalue]
  | (key, j) :: m :: rest =>
      have hkey := newline_not_mem_stringText key
      have hvalue := newline_not_mem_render j
      have hrest := newline_not_mem_renderMembers (m :: rest)
      simp [renderMembers_cons, hkey, hvalue, hrest]

end

end Json

/-! ## The bytes of a document -/

namespace Text.Utf8

/-- Only a line feed has the byte of one. -/
theorem newline_not_mem_utf8EncodeChar {c : Char} (h : c ≠ '\n') :
    10 ∉ String.utf8EncodeChar c := by
  have hvalue : c.val.toNat ≠ 10 := fun hten => h (Char.ext (UInt32.toNat_inj.1 hten))
  have hbyte {n : Nat} (hn : n % 256 ≠ 10) : (10 : UInt8) ≠ UInt8.ofNat n := by
    intro hten
    have hnat := congrArg UInt8.toNat hten
    rw [UInt8.toNat_ofNat'] at hnat
    exact hn hnat.symm
  simp only [String.utf8EncodeChar]
  split
  · rw [List.mem_singleton]
    exact hbyte (by omega)
  · split
    · simp only [List.mem_cons, List.not_mem_nil, or_false, not_or]
      exact ⟨hbyte (by omega), hbyte (by omega)⟩
    · split
      · simp only [List.mem_cons, List.not_mem_nil, or_false, not_or]
        exact ⟨hbyte (by omega), hbyte (by omega), hbyte (by omega)⟩
      · simp only [List.mem_cons, List.not_mem_nil, or_false, not_or]
        exact ⟨hbyte (by omega), hbyte (by omega), hbyte (by omega), hbyte (by omega)⟩

theorem newline_not_mem_encode {s : String} (h : '\n' ∉ s.toList) : 10 ∉ encode s := by
  rw [encode_eq]
  intro hmem
  obtain ⟨c, hc, hten⟩ := List.mem_flatMap.1 hmem
  exact newline_not_mem_utf8EncodeChar (fun hnewline => h (hnewline ▸ hc)) hten

end Text.Utf8

namespace Wire

/-- A written document is one line. -/
theorem newline_not_mem_encode_text (j : Json) : 10 ∉ Text.Utf8.encode j.text := by
  refine Text.Utf8.newline_not_mem_encode ?_
  rw [Json.text, String.toList_ofList]
  exact Json.newline_not_mem_render j

/-! ## Frames of any length -/

/-- A line that does not end is kept. -/
theorem next_of_not_mem {bytes : List UInt8} (h : 10 ∉ bytes) :
    (⟨bytes, none⟩ : Decoder).next = (⟨bytes, none⟩, none) := by
  have hdrop : bytes.dropWhile (· != 10) = [] := by
    refine List.dropWhile_eq_nil_iff.2 fun b hb => ?_
    simpa using fun hten : b = 10 => h (hten ▸ hb)
  simp only [Decoder.next, hdrop]

variable {α : Type} {decode? : List UInt8 → Option α}

/-- What is read of a payload: nothing, if it is longer than a length can say. -/
def heard? (decode? : List UInt8 → Option α) (payload : List UInt8) : Option α :=
  if payload.length < UInt64.size then decode? payload else none

/-- Of a frame that is longer than its length can say, and that is one line, nothing is read. -/
theorem nextMessage_of_size_le {payload : List UInt8} (hsize : UInt64.size ≤ payload.length)
    (hline : 10 ∉ payload) :
    (⟨encodeFrame payload, none⟩ : Decoder).nextMessage decode? = (⟨payload, none⟩, none) := by
  have hcut := cutLine_encodeFrame payload []
  rw [List.append_nil, List.append_nil] at hcut
  have hnext := next_of_cutLine hcut
  rw [lineText_encode_toString, readLength?_toString_eq, if_neg (Nat.not_lt.2 hsize)] at hnext
  rw [Decoder.nextMessage_of_malformed hnext]
  exact Decoder.nextMessage_of_none (next_of_not_mem hline)

/-- What is read of the frame of a document. Nothing is left of it then. -/
theorem nextMessage_encodeJson (j : Json) {result : Option α}
    (hheard : heard? decode? (Text.Utf8.encode j.text) = result) :
    ∃ d, (⟨encodeJson j, none⟩ : Decoder).nextMessage decode? = (d, result) ∧
      (result ≠ none → d = {}) := by
  unfold heard? at hheard
  split at hheard
  · rename_i hsize
    refine ⟨{}, ?_, fun _ => rfl⟩
    rw [encodeJson, nextMessage_encodeFrame hsize, hheard]
  · rename_i hsize
    subst hheard
    refine ⟨_, nextMessage_of_size_le (Nat.not_lt.1 hsize) (newline_not_mem_encode_text j), ?_⟩
    intro hnone
    exact absurd rfl hnone

theorem takeAll_encodeJson (j : Json) {result : Option α}
    (hheard : heard? decode? (Text.Utf8.encode j.text) = result) (limit : Nat) :
    ∃ d, takeAll (Decoder.nextMessage decode?) (limit + 1) ⟨encodeJson j, none⟩ =
        (d, result.toList) ∧ (result ≠ none → d = {}) := by
  obtain ⟨d, hnext, hempty⟩ := nextMessage_encodeJson j hheard
  cases result with
  | none => exact ⟨d, by rw [takeAll, hnext]; rfl, hempty⟩
  | some m =>
      obtain rfl := hempty (Option.some_ne_none m)
      refine ⟨{}, ?_, fun _ => rfl⟩
      rw [takeAll, hnext]
      simp only [takeAll_empty]
      rfl

/-! ## The kind of a message that is read -/

theorem rereadMembers_keys {members members' : List (String × Json)}
    (h : Json.rereadMembers members = some members') :
    members'.map Prod.fst = members.map Prod.fst := by
  induction members generalizing members' with
  | nil =>
      obtain rfl := Option.some.inj h
      rfl
  | cons m rest ih =>
      obtain ⟨key, j⟩ := m
      obtain ⟨j', -, h⟩ := Option.bind_eq_some_iff.1 h
      obtain ⟨rest', hrest, rfl⟩ := Option.map_eq_some_iff.1 h
      rw [List.map_cons, List.map_cons, ih hrest]

/-- A message of any kind is read as one of its kind, with its fields as they read, or as no
message. -/
theorem splitKind?_of_jsonOfBytes? {kind : String} {fields : List (String × Json)}
    (hfields : ∀ f ∈ fields, f.1 ≠ "type") {j : Json}
    (h : jsonOfBytes? (Text.Utf8.encode (messageJson kind fields).text) = some j) :
    ∃ fields', Json.rereadMembers fields = some fields' ∧
      splitKind? j = some (kind, .object fields') := by
  rw [jsonOfBytes?, Text.Utf8.decode?_encode, Option.bind_some, Json.parse?_text] at h
  split at h
  · obtain ⟨members, hmembers, rfl⟩ := Option.map_eq_some_iff.1 h
    obtain ⟨j', hkind, hmembers⟩ := Option.bind_eq_some_iff.1 hmembers
    obtain ⟨fields', hrest, rfl⟩ := Option.map_eq_some_iff.1 hmembers
    obtain rfl := Option.some.inj hkind
    refine ⟨fields', hrest, splitKind?_messageJson fun f hf => ?_⟩
    have hkey : f.1 ∈ fields.map Prod.fst := by
      rw [← rereadMembers_keys hrest]
      exact List.mem_map_of_mem hf
    obtain ⟨f', hf', hsame⟩ := List.mem_map.1 hkey
    rw [← hsame]
    exact hfields f' hf'
  · cases h

/-- Whether a message sets or removes a breakpoint. -/
def HostMessage.ChangesBreakpoints : HostMessage → Prop
  | .setBreakpoint .. | .removeBreakpoint _ => True
  | _ => False

theorem HostMessage.changesBreakpoints_of_ofKind? {kind : String} {j : Json} {m : HostMessage}
    (h : ofKind? kind j = some m) (hm : m.ChangesBreakpoints) :
    kind = "setBreakpoint" ∨ kind = "removeBreakpoint" := by
  unfold ofKind? at h
  split at h
  case h_8 => exact Or.inl rfl
  case h_9 => exact Or.inr rfl
  case h_3 | h_10 | h_11 | h_12 | h_13 =>
    split at h
    · simp only [Option.map_eq_some_iff, Option.bind_eq_bind, Option.bind_eq_some_iff,
        Option.pure_def, Option.some.injEq] at h
      grind [ChangesBreakpoints]
    · cases h
  all_goals
    obtain ⟨_, -, rfl⟩ := Option.map_eq_some_iff.1 h
    exact hm.elim

/-- What does not set or remove a breakpoint is not read as if it did. -/
theorem HostMessage.not_changesBreakpoints_of_decode? {m m' : HostMessage}
    (h : HostMessage.decode? (Text.Utf8.encode m.toJson.text) = some m')
    (hm : ¬m.ChangesBreakpoints) : ¬m'.ChangesBreakpoints := by
  obtain ⟨j, hjson, hread⟩ := Option.bind_eq_some_iff.1 h
  obtain ⟨fields', -, hsplit⟩ := splitKind?_of_jsonOfBytes? (fields_ne_type m) hjson
  rw [ofJson?, hsplit, Option.bind_some] at hread
  intro hm'
  have hkind := changesBreakpoints_of_ofKind? hread hm'
  cases m with
  | setBreakpoint | removeBreakpoint => exact hm trivial
  | _ => simp [kind] at hkind

end Wire

end ScriptDebugger
