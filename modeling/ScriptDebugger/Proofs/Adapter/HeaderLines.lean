import ScriptDebugger.Proofs.Adapter.Framing
/-!
# Bodies behind header lines

In front of a body stand lines of any text. Those that begin with the name of the length give a
number, and the last of them counts. A blank line ends the headers, unless no length was given so
far, or the length zero: then it is passed over. What a line gives is stated here as a grammar, and
which line counts by filtering the lines, neither of which the reader does: it goes through the
lines once and keeps a number.

A body may hold whatever looks like a header or an empty line, since it is taken by its length. So
bodies are read one by one. A written request is such a body, and reads back unless its arguments
are too deep for the reader.

## Main results

* `Header.ofLine_of_gives` — the reader takes from a line the length that it gives.
* `Input.readHeaders_lines` — a run of lines, by the length announced at its end.
* `Parcel.next_bytes` — a body behind header lines is handed out as it is.
* `Message.decode?_encode` — a request with integers and texts in its arguments reads back.
* `bodies_are_read` — any bodies one behind another, and any such requests.
-/

namespace ScriptDebugger

namespace Adapter

open Text (isBlank dropBlanksRight)

/-! ## Lines -/

/-- The name in front of a length. -/
def lengthName : List Char := "Content-Length:".toList

/-- Whether a line begins with the name of the length. -/
def namesLength (line : String) : Bool := lengthName.isPrefixOf line.toList

/-- Whether a line holds blanks only. -/
def IsBlankLine (line : String) : Prop := ∀ c ∈ line.toList, isBlank c = true

/-- A numeral for a length: digits, which may stand behind a plus sign. -/
def Writes (numeral : List Char) (n : Nat) : Prop :=
  ∃ digits, (numeral = digits ∨ numeral = '+' :: digits) ∧ digits ≠ [] ∧
    (∀ c ∈ digits, c.isDigit = true) ∧ Nat.ofDigitChars 10 digits 0 = n ∧ n < UInt64.size

/-- A line gives a length: it is the name of the length and a numeral, with blanks around it. -/
def Gives (line : String) (n : Nat) : Prop :=
  ∃ before numeral behind, line.toList = lengthName ++ (before ++ (numeral ++ behind)) ∧
    (∀ c ∈ before, isBlank c = true) ∧ (∀ c ∈ behind, isBlank c = true) ∧ Writes numeral n

/-- The last line that begins with the name of the length. -/
def lastLength? (lines : List String) : Option String := (lines.filter namesLength).getLast?

/-- The bytes of lines, each with its line feed. -/
def bytesOfLines (lines : List String) : List UInt8 :=
  lines.flatMap fun line => Text.Utf8.encode line ++ [10]

/-- A body behind header lines and a blank line. The last line that names a length gives that of the
body. Where a length other than zero was given before, no line is blank. -/
structure Parcel where
  /-- The header lines. -/
  lines : List String
  /-- The line behind them. -/
  finish : String
  /-- The body. -/
  body : List UInt8
  body_ne_nil : body ≠ []
  oneLine : ∀ line ∈ finish :: lines, '\n' ∉ line.toList
  finish_blank : IsBlankLine finish
  length : ∃ line, lastLength? lines = some line ∧ Gives line body.length
  blank : ∀ front line back, lines = front ++ line :: back → IsBlankLine line →
    ∀ named n, lastLength? front = some named → Gives named n → n = 0

/-- The bytes of a body with its header lines. -/
def Parcel.bytes (p : Parcel) : List UInt8 :=
  bytesOfLines p.lines ++ (bytesOfLines [p.finish] ++ p.body)

/-! ## What a line means -/

theorem readLength?_eq_some_iff {numeral : List Char} {n : Nat} :
    Wire.readLength? numeral = some n ↔ Writes numeral n := by
  have hvalue : ∀ digits : List Char,
      digits.foldl (fun n c => n * 10 + (c.toNat - '0'.toNat)) 0 =
        Nat.ofDigitChars 10 digits 0 := by
    intro digits
    rw [Nat.ofDigitChars_eq_foldl]
    simp only [Nat.mul_comm]
  have hdigits : ∀ digits : List Char,
      (if digits ≠ [] ∧ digits.all Char.isDigit then
          if digits.foldl (fun n c => n * 10 + (c.toNat - '0'.toNat)) 0 < UInt64.size then
            some (digits.foldl (fun n c => n * 10 + (c.toNat - '0'.toNat)) 0)
          else none
        else none) = some n ↔
        digits ≠ [] ∧ (∀ c ∈ digits, c.isDigit = true) ∧ Nat.ofDigitChars 10 digits 0 = n ∧
          n < UInt64.size := by
    intro digits
    simp only [hvalue, List.all_eq_true, Option.ite_none_right_eq_some, Option.some.injEq]
    constructor
    · rintro ⟨⟨hne, hall⟩, hlt, rfl⟩
      exact ⟨hne, hall, rfl, hlt⟩
    · rintro ⟨hne, hall, rfl, hlt⟩
      exact ⟨⟨hne, hall⟩, hlt, rfl⟩
  constructor
  · intro h
    unfold Wire.readLength? at h
    split at h
    · exact ⟨_, .inr rfl, (hdigits _).1 h⟩
    · exact ⟨_, .inl rfl, (hdigits _).1 h⟩
  · rintro ⟨digits, rfl | rfl, hrest⟩
    · unfold Wire.readLength?
      split
      · have hplus := hrest.2.1 '+' List.mem_cons_self
        cases hplus
      · exact (hdigits _).2 hrest
    · exact (hdigits _).2 hrest

theorem Writes.ne_nil {numeral : List Char} {n : Nat} (h : Writes numeral n) : numeral ≠ [] := by
  obtain ⟨digits, rfl | rfl, hne, -⟩ := h
  · exact hne
  · exact List.cons_ne_nil _ _

/-- A numeral holds no blanks. -/
theorem Writes.not_blank {numeral : List Char} {n : Nat} (h : Writes numeral n) :
    ∀ c ∈ numeral, isBlank c = false := by
  obtain ⟨digits, hform, -, hdigits, -⟩ := h
  have hnone : ∀ c ∈ digits, isBlank c = false := fun c hc => Text.isBlank_of_isDigit (hdigits c hc)
  rcases hform with rfl | rfl
  · exact hnone
  · exact List.forall_mem_cons.2 ⟨by decide, hnone⟩

theorem namesLength_iff {line : String} :
    namesLength line = true ↔ ∃ value, line.toList = lengthName ++ value := by
  rw [namesLength, List.isPrefixOf_iff_prefix]
  exact ⟨fun ⟨value, h⟩ => ⟨value, h.symm⟩, fun ⟨value, h⟩ => ⟨value, h.symm⟩⟩

/-- The name ends in a colon, so only the blanks behind what follows it are dropped. -/
theorem dropBlanksRight_name (value : List Char) :
    dropBlanksRight (lengthName ++ value) = lengthName ++ dropBlanksRight value := by
  have hname : lengthName = "Content-Length".toList ++ [':'] := by decide
  have hcolon : isBlank ':' = false := by decide
  rw [hname, List.append_assoc, List.append_assoc]
  exact Text.dropBlanksRight_append_cons _ hcolon value

theorem lengthField?_name (value : List Char) :
    lengthField? (lengthName ++ value) = some value := by
  have hprefix : lengthName.isPrefixOf (lengthName ++ value) = true :=
    List.isPrefixOf_iff_prefix.2 (List.prefix_append _ _)
  have hfield : lengthField? (lengthName ++ value) =
      if lengthName.isPrefixOf (lengthName ++ value) then
        some ((lengthName ++ value).drop lengthName.length)
      else none := rfl
  rw [hfield, if_pos hprefix, List.drop_left]

namespace Header

theorem ofLine_eq_finish_iff {n : Nat} {line : String} :
    ofLine n line = .finish ↔ IsBlankLine line := by
  rw [IsBlankLine, ← Text.dropBlanksRight_eq_nil_iff, ofLine]
  split
  · rename_i hnil
    exact iff_of_true rfl hnil
  · rename_i hne
    refine iff_of_false ?_ hne
    split <;> exact Header.noConfusion

/-- What the reader makes of the text behind the name of the length. -/
theorem ofLine_name (n : Nat) {line : String} {value : List Char}
    (h : line.toList = lengthName ++ value) :
    ofLine n line =
      .length ((Wire.readLength? (Text.trimmed (dropBlanksRight value))).getD 0) := by
  have hne : lengthName ++ dropBlanksRight value ≠ [] := List.cons_ne_nil _ _
  rw [ofLine, h, dropBlanksRight_name, if_neg hne, lengthField?_name]

/-- A line that is not blank and does not begin with the name of the length changes nothing. -/
theorem ofLine_other (n : Nat) {line : String} (hblank : ¬IsBlankLine line)
    (h : namesLength line = false) : ofLine n line = .length n := by
  have hfield : lengthField? (dropBlanksRight line.toList) = none := by
    refine if_neg fun hprefix => ?_
    have hname : namesLength line = true :=
      List.isPrefixOf_iff_prefix.2
        ((List.isPrefixOf_iff_prefix.1 hprefix).trans (Text.dropBlanksRight_prefix _))
    rw [h] at hname
    cases hname
  rw [IsBlankLine, ← Text.dropBlanksRight_eq_nil_iff] at hblank
  rw [ofLine, if_neg hblank, hfield]

/-- The reader takes from a line the length that it gives. -/
theorem ofLine_of_gives (n : Nat) {line : String} {m : Nat} (h : Gives line m) :
    ofLine n line = .length m := by
  obtain ⟨before, numeral, behind, hline, hbefore, hbehind, hwrites⟩ := h
  have hdropped : dropBlanksRight (before ++ (numeral ++ behind)) = before ++ (numeral ++ []) := by
    rw [← List.append_assoc, Text.dropBlanksRight_append_blanks _ hbehind, List.append_nil,
      Text.dropBlanksRight_append_not_blank before hwrites.ne_nil hwrites.not_blank]
  have htrimmed : Text.trimmed (dropBlanksRight (before ++ (numeral ++ behind))) = numeral := by
    rw [hdropped]
    exact Text.trimmed_of_blanks hbefore hwrites.ne_nil hwrites.not_blank (List.forall_mem_nil _)
  rw [ofLine_name n hline, htrimmed, readLength?_eq_some_iff.2 hwrites, Option.getD_some]

/-- A line that begins with the name of the length gives a length, or counts as zero. -/
theorem exists_ofLine {n : Nat} {line : String} (h : namesLength line = true) :
    ∃ m, ofLine n line = .length m ∧ (m ≠ 0 → Gives line m) := by
  obtain ⟨value, hline⟩ := namesLength_iff.1 h
  refine ⟨_, ofLine_name n hline, fun hne => ?_⟩
  cases hread : Wire.readLength? (Text.trimmed (dropBlanksRight value)) with
  | none =>
      rw [hread] at hne
      exact absurd rfl hne
  | some m =>
      obtain ⟨between, hsplit, hbetween⟩ := Text.exists_trimmed (dropBlanksRight value)
      obtain ⟨behind, hvalue, hbehind⟩ := Text.exists_dropBlanksRight value
      refine ⟨(dropBlanksRight value).takeWhile isBlank, _, between ++ behind, ?_, ?_, ?_,
        readLength?_eq_some_iff.1 hread⟩
      · conv_lhs => rw [hline, hvalue, hsplit]
        simp only [List.append_assoc]
      · exact fun c hc => List.all_eq_true.1 List.all_takeWhile c hc
      · intro c hc
        rcases List.mem_append.1 hc with hc | hc
        · exact hbetween c hc
        · exact hbehind c hc

end Header

/-! ## What lines announce -/

/-- The length announced behind a line, if it was `n` before. A blank line leaves it. -/
def announcedBy (n : Nat) (line : String) : Nat :=
  match Header.ofLine n line with
  | .finish => n
  | .length k => k

/-- The length announced behind lines, if it was `n` before. -/
def announcedFrom (n : Nat) (lines : List String) : Nat := lines.foldl announcedBy n

theorem announcedBy_of_gives (n : Nat) {line : String} {m : Nat} (h : Gives line m) :
    announcedBy n line = m := by
  rw [announcedBy, Header.ofLine_of_gives n h]

theorem announcedBy_other (n : Nat) {line : String} (h : namesLength line = false) :
    announcedBy n line = n := by
  rw [announcedBy]
  by_cases hblank : IsBlankLine line
  · rw [Header.ofLine_eq_finish_iff.2 hblank]
  · rw [Header.ofLine_other n hblank h]

theorem announcedFrom_concat (n : Nat) (lines : List String) (line : String) :
    announcedFrom n (lines ++ [line]) = announcedBy (announcedFrom n lines) line := by
  rw [announcedFrom, List.foldl_append]
  rfl

theorem lastLength?_concat (lines : List String) (line : String) :
    lastLength? (lines ++ [line]) =
      if namesLength line then some line else lastLength? lines := by
  rw [lastLength?, List.filter_append]
  split
  · rename_i h
    rw [List.filter_cons_of_pos h, List.filter_nil, List.getLast?_concat]
  · rename_i h
    rw [List.filter_cons_of_neg h, List.filter_nil, List.append_nil, lastLength?]

/-- The length that the last line with one gives is announced. -/
theorem announcedFrom_of_gives {lines : List String} {line : String} {m : Nat}
    (hlast : lastLength? lines = some line) (h : Gives line m) (n : Nat) :
    announcedFrom n lines = m := by
  induction lines using List.reverseRecOn with
  | nil => cases hlast
  | append_singleton lines last ih =>
      rw [lastLength?_concat] at hlast
      rw [announcedFrom_concat]
      split at hlast
      · obtain rfl := Option.some.inj hlast
        exact announcedBy_of_gives _ h
      · rename_i hother
        rw [announcedBy_other _ (Bool.eq_false_of_not_eq_true hother)]
        exact ih hlast

/-- If a length other than zero is announced, the last line with one gives it. -/
theorem exists_gives_of_announced {lines : List String} (h : announcedFrom 0 lines ≠ 0) :
    ∃ line, lastLength? lines = some line ∧ Gives line (announcedFrom 0 lines) := by
  induction lines using List.reverseRecOn with
  | nil => exact absurd rfl h
  | append_singleton lines last ih =>
      rw [announcedFrom_concat] at h ⊢
      rw [lastLength?_concat]
      split
      · rename_i hnames
        obtain ⟨m, hmeans, hgives⟩ := Header.exists_ofLine (n := announcedFrom 0 lines) hnames
        have hannounced : announcedBy (announcedFrom 0 lines) last = m := by
          rw [announcedBy, hmeans]
        rw [hannounced] at h ⊢
        exact ⟨last, rfl, hgives h⟩
      · rename_i hother
        rw [announcedBy_other _ (Bool.eq_false_of_not_eq_true hother)] at h ⊢
        exact ih h

/-! ## Reading on -/

theorem bytesOfLines_cons (line : String) (lines : List String) (rest : List UInt8) :
    bytesOfLines (line :: lines) ++ rest =
      Text.Utf8.encode line ++ 10 :: (bytesOfLines lines ++ rest) := by
  simp [bytesOfLines]

/-- One whole line of a text, read among header lines. -/
theorem Input.readHeaders_line {line : String} (h : '\n' ∉ line.toList) (n : Nat)
    (rest : List UInt8) :
    readHeaders n (Text.Utf8.encode line ++ 10 :: rest) =
      match Header.ofLine n line with
      | .length k => readHeaders k rest
      | .finish => if n = 0 then readHeaders 0 rest else takeBody rest n :=
  readHeaders_of_line (readLine?_append (Text.Utf8.newline_not_mem_encode h) rest)
    (Text.Utf8.decode?_encode line) n

/-- A run of lines is read as the length announced at its end, if no line is blank where a length
other than zero is announced. -/
theorem Input.readHeaders_lines {lines : List String} {n : Nat}
    (hline : ∀ line ∈ lines, '\n' ∉ line.toList)
    (hblank : ∀ front line back, lines = front ++ line :: back → IsBlankLine line →
      announcedFrom n front = 0) (rest : List UInt8) :
    readHeaders n (bytesOfLines lines ++ rest) = readHeaders (announcedFrom n lines) rest := by
  induction lines generalizing n with
  | nil => rfl
  | cons line lines ih =>
      obtain ⟨hfirst, hothers⟩ := List.forall_mem_cons.1 hline
      have hbehind : ∀ front line' back, lines = front ++ line' :: back → IsBlankLine line' →
          announcedFrom (announcedBy n line) front = 0 := by
        intro front line' back hsplit
        exact hblank (line :: front) line' back (congrArg (line :: ·) hsplit)
      have hmore := ih hothers hbehind
      rw [bytesOfLines_cons, readHeaders_line hfirst]
      show _ = readHeaders (announcedFrom (announcedBy n line) lines) rest
      cases hmeans : Header.ofLine n line with
      | finish =>
          have hzero : n = 0 := hblank [] line lines rfl (Header.ofLine_eq_finish_iff.1 hmeans)
          have hsame : announcedBy n line = 0 := by rw [announcedBy, hmeans, hzero]
          rw [hsame] at hmore ⊢
          exact (if_pos hzero).trans hmore
      | length k =>
          have hsame : announcedBy n line = k := by rw [announcedBy, hmeans]
          rw [hsame] at hmore ⊢
          exact hmore

/-- A body behind header lines is handed out as it is, whatever follows it. -/
theorem Parcel.next_bytes (p : Parcel) (rest : List UInt8) :
    (⟨p.bytes ++ rest, .headers 0⟩ : Input).next = (⟨rest, .headers 0⟩, .body p.body) := by
  obtain ⟨hfinish, hlines⟩ := List.forall_mem_cons.1 p.oneLine
  obtain ⟨named, hlast, hgives⟩ := p.length
  have hblank : ∀ front line back, p.lines = front ++ line :: back → IsBlankLine line →
      announcedFrom 0 front = 0 := by
    intro front line back hsplit hline
    by_contra hne
    obtain ⟨earlier, hearlier, hlength⟩ := exists_gives_of_announced hne
    exact hne (p.blank front line back hsplit hline earlier _ hearlier hlength)
  have hlong : ¬(p.body ++ rest).length < p.body.length := by
    rw [List.length_append]
    omega
  have hbody : p.body.length ≠ 0 := mt List.length_eq_zero_iff.1 p.body_ne_nil
  show Input.readHeaders 0 (p.bytes ++ rest) = _
  rw [Parcel.bytes, List.append_assoc, Input.readHeaders_lines hlines hblank,
    announcedFrom_of_gives hlast hgives, List.append_assoc, bytesOfLines_cons,
    Input.readHeaders_line hfinish, Header.ofLine_eq_finish_iff.2 p.finish_blank]
  show (if p.body.length = 0 then _ else Input.takeBody (p.body ++ rest) p.body.length) = _
  rw [if_neg hbody, Input.takeBody, if_neg hlong, List.drop_left, List.take_left]

theorem Parcel.readAll_bytes (p : Parcel) (rest : List UInt8) :
    Input.readAll (p.bytes ++ rest) =
      ((Message.decode? p.body).toList ++ (Input.readAll rest).1, (Input.readAll rest).2) :=
  Input.readAll_of_next (List.append_ne_nil_of_right_ne_nil _
    (List.append_ne_nil_of_right_ne_nil _ p.body_ne_nil)) (p.next_bytes rest)

/-- Bodies are read one by one, and nothing is left behind the last one. -/
theorem Input.readAll_flatMap {α : Type} {bytes body : α → List UInt8} {items : List α}
    (h : ∀ a ∈ items, ∀ rest, readAll (bytes a ++ rest) =
      ((Message.decode? (body a)).toList ++ (readAll rest).1, (readAll rest).2)) :
    readAll (items.flatMap bytes) = (items.filterMap fun a => Message.decode? (body a), none) := by
  induction items with
  | nil => exact readAll_nil
  | cons a items ih =>
      obtain ⟨hfirst, hothers⟩ := List.forall_mem_cons.1 h
      rw [List.flatMap_cons, hfirst, ih hothers, List.filterMap_cons]
      cases Message.decode? (body a) <;> rfl

/-! ## Requests -/

/-- A request that can be read back: its arguments, if it has any, are not null and in canonical
form, all numbers in them are integers of 64 bits, and fewer arrays and objects stand inside one
another than the reader allows, as they stand in the object of the message. -/
structure Message.Returns (m : Message) : Prop where
  seq : m.seq < UInt64.size
  request : ∃ command arguments, m.content = .request command arguments ∧
    ∀ j, arguments = some j → j ≠ .null ∧ j.canonical = j ∧
      j.AllNumbers Json.Number.FitsWord ∧ j.nesting < Json.Progress.depthLimit
  size : (Text.Utf8.encode m.toJson.text).length < UInt64.size

/-- Such a request is read from its body. -/
theorem Message.decode?_encode {m : Message} (h : m.Returns) :
    Message.decode? (Text.Utf8.encode m.toJson.text) = some m := by
  obtain ⟨hseq, ⟨command, arguments, hcontent, harguments⟩, -⟩ := h
  obtain ⟨seq, type, content⟩ := m
  obtain rfl : content = .request command arguments := hcontent
  have hinner : (arguments.getD .null).AllNumbers Json.Number.FitsWord ∧
      (arguments.getD .null).nesting < Json.Progress.depthLimit ∧
      anything (some (arguments.getD .null)) = arguments := by
    cases arguments with
    | none => exact ⟨trivial, by decide, rfl⟩
    | some j =>
        obtain ⟨hnull, hcanonical, hnumbers, hdepth⟩ := harguments j rfl
        refine ⟨hnumbers, hdepth, ?_⟩
        rw [Option.getD_some]
        cases j with
        | null => exact absurd rfl hnull
        | bool | number | string | array | object => exact congrArg some hcanonical
  obtain ⟨hnumbers, hdepth, hread⟩ := hinner
  have hall : (Message.mk seq type (.request command arguments)).toJson.AllNumbers
      Json.Number.FitsWord := by
    refine ⟨⟨by omega, ?_⟩, trivial, trivial, hnumbers, trivial⟩
    exact Int.ofNat_lt.2 hseq
  have hnesting : (Message.mk seq type (.request command arguments)).toJson.nesting ≤
      Json.Progress.depthLimit := by
    rw [nesting_toJson_request]
    exact hdepth
  rw [Message.decode?, Text.Utf8.decode?_encode, Option.bind_some,
    Json.parse?_text_of_fitsWord hall hnesting, Option.bind_some]
  refine ofJson?_eq_some_iff.2 ⟨⟨_, rfl, Json.nat64?_ofNat hseq⟩, rfl, ?_⟩
  have hrequest : Adapter.request? (.object (contentMembers
      (("seq", .ofNat seq) :: ("type", .string type) ::
        (Content.request command arguments).fields))) = some (.request command arguments) :=
    request?_eq_some_iff.2 ⟨rfl, _, rfl, hread.symm⟩
  rw [hrequest]
  rfl

theorem Message.readAll_encode {m : Message} (h : m.Returns) (rest : List UInt8) :
    Input.readAll (m.encode ++ rest) =
      ((Message.decode? (Text.Utf8.encode m.toJson.text)).toList ++ (Input.readAll rest).1,
        (Input.readAll rest).2) :=
  Input.readAll_envelope (Envelope.ofMessage m h.size) rest

/-- Bodies behind header lines that stand one behind another are handed out one by one, and those
that are messages are read as such; then the input is at its end. Requests that were written are
read back as they were. -/
theorem bodies_are_read :
    (∀ parcels : List Parcel, Input.readAll (parcels.flatMap Parcel.bytes) =
        (parcels.filterMap fun p => Message.decode? p.body, none)) ∧
      ∀ messages : List Message, (∀ m ∈ messages, m.Returns) →
        Input.readAll (messages.flatMap Message.encode) = (messages, none) := by
  refine ⟨fun parcels => Input.readAll_flatMap fun p _ => p.readAll_bytes, fun messages h => ?_⟩
  rw [Input.readAll_flatMap fun m hm => Message.readAll_encode (h m hm)]
  have hread : messages.filterMap (fun m => Message.decode? (Text.Utf8.encode m.toJson.text)) =
      messages.filterMap some :=
    List.filterMap_congr fun m hm => Message.decode?_encode (h m hm)
  rw [hread, List.filterMap_some]

instance (line : String) : Decidable (IsBlankLine line) :=
  decidable_of_iff (line.toList.all isBlank = true) List.all_eq_true

/-- The body of a request for the threads. -/
def threadsBody : List UInt8 := Text.Utf8.encode threadsMessage.toJson.text

theorem returns_threadsMessage : threadsMessage.Returns :=
  ⟨by decide, ⟨"threads", none, rfl, nofun⟩, threadsMessage_length⟩

theorem length_threadsBody : threadsBody.length = 63 := by decide +kernel

/-- A line with blanks around a numeral with a sign. -/
theorem gives_threadsBody : Gives "Content-Length: +063 \r" threadsBody.length := by
  rw [length_threadsBody]
  exact ⟨[' '], "+063".toList, [' ', '\r'], by decide, List.all_eq_true.1 (by decide),
    List.all_eq_true.1 (by decide), "063".toList, .inr rfl, by decide,
    List.all_eq_true.1 (by decide), by decide, by decide⟩

/-- Where the first line only may be blank, nothing stands in front of a blank one. -/
theorem eq_nil_of_blank {first : String} {lines front back : List String} {line : String}
    (h : ∀ line ∈ lines, ¬IsBlankLine line) (hsplit : first :: lines = front ++ line :: back)
    (hblank : IsBlankLine line) : front = [] := by
  cases front with
  | nil => rfl
  | cons _ front =>
      refine absurd hblank (h line ?_)
      rw [(List.cons.inj hsplit).2]
      exact List.mem_append_right _ List.mem_cons_self

/-- A body behind lines of which only one gives its length, and the first of which is blank. -/
def crowdedParcel : Parcel where
  lines := ["\r", "Content-Length: 7", "Content-Length: +063 \r", "X: Content-Length: 9"]
  finish := " \r"
  body := threadsBody
  body_ne_nil := encode_toJson_ne_nil threadsMessage
  oneLine := by decide
  finish_blank := by decide
  length := ⟨"Content-Length: +063 \r", by decide, gives_threadsBody⟩
  blank front line back hsplit hblank named n hlast _ := by
    rw [eq_nil_of_blank (by decide) hsplit hblank] at hlast
    cases hlast

/-- A request whose arguments hold what looks like the end of a header and like another one. -/
def lookalikeMessage : Message :=
  .ofContent 7 (.request "evaluate" (some (.object
    [("text", .array [.number (.int (-1)), .string "\r\n\r\nContent-Length: 3\r\n"])])))

theorem bodies_are_read_lookalike :
    Input.readAll ([crowdedParcel].flatMap Parcel.bytes) = ([threadsMessage], none) ∧
      (∀ m ∈ [lookalikeMessage, threadsMessage], m.Returns) ∧
      Input.readAll ([lookalikeMessage, threadsMessage].flatMap Message.encode) =
        ([lookalikeMessage, threadsMessage], none) := by
  have hlookalike : lookalikeMessage.Returns := by
    refine ⟨by decide, ⟨"evaluate", _, rfl, fun j hj => ?_⟩, length_encode_text_lt (by decide)⟩
    obtain rfl := Option.some.inj hj
    exact ⟨nofun, rfl, ⟨⟨⟨by decide, by decide⟩, trivial, trivial⟩, trivial⟩, by decide⟩
  have hreturns : ∀ m ∈ [lookalikeMessage, threadsMessage], m.Returns :=
    List.forall_mem_cons.2 ⟨hlookalike, List.forall_mem_singleton.2 returns_threadsMessage⟩
  have hread : [crowdedParcel].filterMap (fun p => Message.decode? p.body) = [threadsMessage] :=
    List.filterMap_cons_some (Message.decode?_encode returns_threadsMessage)
  refine ⟨?_, hreturns, bodies_are_read.2 _ hreturns⟩
  rw [bodies_are_read.1, hread]

/-! ## What is not read -/

/-- Arrays inside one another, and a number in the innermost one. -/
def boxed : Nat → Json
  | 0 => .number (.int 1)
  | n + 1 => .array [boxed n]

theorem boxed_spec (n : Nat) : boxed n ≠ .null ∧ (boxed n).canonical = boxed n ∧
    (boxed n).AllNumbers Json.Number.FitsWord ∧ (boxed n).nesting = n := by
  induction n with
  | zero => exact ⟨Json.noConfusion, rfl, ⟨by decide, by decide⟩, rfl⟩
  | succ n ih =>
      obtain ⟨-, hcanonical, hnumbers, hnesting⟩ := ih
      refine ⟨Json.noConfusion, ?_, ⟨hnumbers, trivial⟩, ?_⟩
      · rw [boxed, Json.canonical, Json.canonicalItems, hcanonical, Json.canonicalItems]
      · rw [boxed, Json.nesting, Json.nestingOfItems, hnesting, Json.nestingOfItems, Nat.max_zero]

/-- The text of arguments stands in the place of `null`. -/
theorem length_render_request (seq : Nat) (command : String) (j : Json) :
    (Message.ofContent seq (.request command (some j))).toJson.render.length + 4 =
      (Message.ofContent seq (.request command none)).toJson.render.length + j.render.length := by
  simp only [Message.ofContent, Message.toJson, Content.type, Content.fields, Option.getD_some,
    Option.getD_none, Json.render, Json.renderMembers, List.length_cons, List.length_append,
    List.length_nil]
  omega

theorem length_render_boxed (n : Nat) : (boxed n).render.length = 2 * n + 1 := by
  induction n with
  | zero => rfl
  | succ n ih =>
      rw [boxed, Json.render, Json.renderItems, List.cons_append, List.length_cons,
        List.length_append, ih]
      rfl

/-- A request whose arguments are a number in 127 arrays. -/
def boxedMessage : Message := .ofContent 1 (.request "threads" (some (boxed 127)))

theorem boxedMessage_length :
    (Text.Utf8.encode boxedMessage.toJson.text).length < UInt64.size := by
  have hlength := length_render_request 1 "threads" (boxed 127)
  have hplain : (Message.ofContent 1 (.request "threads" none)).toJson.render.length = 63 := by
    decide +kernel
  have hsize : 4 * (63 + (2 * 127 + 1)) < UInt64.size := by decide
  rw [hplain, length_render_boxed] at hlength
  refine length_encode_text_lt (Nat.lt_of_le_of_lt ?_ hsize)
  rw [boxedMessage]
  omega

/-- Two header lines, the second of which is blank. -/
def linesWithBlank : List String := ["Content-Length: 63\r", " \r"]

theorem gives_linesWithBlank : Gives "Content-Length: 63\r" 63 :=
  ⟨[' '], "63".toList, ['\r'], by decide, List.all_eq_true.1 (by decide),
    List.all_eq_true.1 (by decide), "63".toList, .inl rfl, by decide,
    List.all_eq_true.1 (by decide), by decide, by decide⟩

/-- What the reader takes for a body behind these lines: the empty line behind them, and the body of
the request up to its last two characters. -/
def shiftedParcel : Parcel where
  lines := ["Content-Length: 63\r"]
  finish := " \r"
  body := [13, 10] ++ threadsBody.take 61
  body_ne_nil := List.cons_ne_nil _ _
  oneLine := by decide
  finish_blank := by decide
  length := by
    have hlength : ([13, 10] ++ threadsBody.take 61).length = 63 := by
      rw [List.length_append, List.length_take, length_threadsBody]
      rfl
    rw [hlength]
    exact ⟨_, by decide, gives_linesWithBlank⟩
  blank front line back hsplit hblank named n hlast _ := by
    rw [eq_nil_of_blank (List.forall_mem_nil _) hsplit hblank] at hlast
    cases hlast

/-- Two characters of a body among the header lines, at the end of the input. -/
theorem readAll_left : Input.readAll [108, 125] = ([], none) := by
  have hnext : (⟨[108, 125], .headers 0⟩ : Input).next =
      (⟨[108, 125], .headers 0⟩, .incomplete) := by
    exact Input.readHeaders_of_none rfl 0
  have hend : Input.atEnd ⟨[108, 125], .headers 0⟩ = none := by decide +kernel
  show Input.messages ⟨[108, 125], .headers 0⟩ 3 = _
  rw [Input.messages_succ, hnext]
  exact congrArg (Prod.mk []) hend

/-- A written request is skipped when its arguments are deeper than the reader allows. And a blank
line behind a length ends the headers: the body is taken from there, and is no message. -/
theorem boxed_or_behind_blank_lost :
    (boxed 127 ≠ .null ∧ (boxed 127).canonical = boxed 127 ∧
        (boxed 127).AllNumbers Json.Number.FitsWord ∧
        (Text.Utf8.encode boxedMessage.toJson.text).length < UInt64.size ∧
        Input.readAll boxedMessage.encode = ([], none)) ∧
      lastLength? linesWithBlank = some "Content-Length: 63\r" ∧
        Gives "Content-Length: 63\r" threadsBody.length ∧
        Message.decode? threadsBody = some threadsMessage ∧
        Input.readAll (bytesOfLines linesWithBlank ++ (bytesOfLines ["\r"] ++ threadsBody)) =
          ([], none) := by
  obtain ⟨hnull, hcanonical, hnumbers, hdepth⟩ := boxed_spec 127
  have hskipped : Message.decode? (Text.Utf8.encode boxedMessage.toJson.text) = none := by
    have hdeep : ¬boxedMessage.toJson.nesting ≤ Json.Progress.depthLimit := by
      rw [boxedMessage, Message.ofContent, nesting_toJson_request, Option.getD_some, hdepth]
      decide
    rw [Message.decode?, Text.Utf8.decode?_encode, Option.bind_some, Json.parse?_text,
      if_neg hdeep]
    rfl
  have hboxed := Input.readAll_envelope (Envelope.ofMessage boxedMessage boxedMessage_length) []
  rw [List.append_nil, Envelope.bytes_ofMessage] at hboxed
  have hshifted : Message.decode? shiftedParcel.body = none :=
    Option.isNone_iff_eq_none.1 (by decide +kernel)
  have hbytes : bytesOfLines linesWithBlank ++ (bytesOfLines ["\r"] ++ threadsBody) =
      shiftedParcel.bytes ++ [108, 125] := by
    have hempty : bytesOfLines ["\r"] = [13, 10] := by decide +kernel
    have hsplit : threadsBody = threadsBody.take 61 ++ [108, 125] := by
      have hleft : threadsBody.drop 61 = [108, 125] := by decide +kernel
      rw [← hleft, List.take_append_drop]
    rw [hempty]
    conv_lhs => rw [hsplit]
    simp only [Parcel.bytes, shiftedParcel, linesWithBlank, bytesOfLines, List.flatMap_cons,
      List.flatMap_nil, List.append_assoc, List.append_nil]
  have hblank := shiftedParcel.readAll_bytes [108, 125]
  refine ⟨⟨hnull, hcanonical, hnumbers, boxedMessage_length, ?_⟩, by decide, ?_, ?_, ?_⟩
  · rw [hboxed]
    show ((Message.decode? (Text.Utf8.encode boxedMessage.toJson.text)).toList ++ _, _) = _
    rw [hskipped, Input.readAll_nil]
    rfl
  · rw [length_threadsBody]
    exact gives_linesWithBlank
  · exact Message.decode?_encode returns_threadsMessage
  · rw [hbytes, hblank, hshifted, readAll_left]
    rfl

end Adapter

end ScriptDebugger
