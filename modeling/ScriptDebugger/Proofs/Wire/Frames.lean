import Mathlib
import ScriptDebugger.Proofs.Text.Utf8
import ScriptDebugger.Proofs.Wire.Chunks
/-!
# The frames of a byte string

`framesOf` reads frames off a whole byte string: a line up to its line feed, which is a length or
not, then as many bytes as the length says, and so on. It knows neither pieces nor a length that was
read already. Here a decoder and a reader are proved to hand out what `framesOf` finds, however the
bytes come in.

What carries the proof is that a decoder stands for the frames in what it holds (`Decoder.frames`):
whatever bytes may follow, the frames handed out so far and those that the decoder stands for then
are the frames of all bytes (`Yields`).

## Main results

* `yields_play` — a decoder that is fed and asked in any order hands out the frames of all bytes.
* `asked_nextMessage`, `got_get` — what comes of asking a decoder or a reader for a message.
* `Tracks.answers` — a reader answers from the frames in the bytes up to where reading ends next.
* `framesOf_flatMap_encodeFrame` — the frames of encoded payloads.
* `decoding_depends_on_bytes` — the decoder, the reader and the encoder together.
-/

namespace ScriptDebugger.Wire

/-! ## Reading a whole byte string -/

/-- The first line of a byte string, without its line feed, and what stands behind it. -/
def cutLine : List UInt8 → Option (List UInt8 × List UInt8)
  | [] => none
  | b :: bytes =>
    if b = 10 then some ([], bytes) else (cutLine bytes).map fun (line, rest) => (b :: line, rest)

theorem cutLine_length_lt {bytes line rest : List UInt8} (h : cutLine bytes = some (line, rest)) :
    rest.length < bytes.length := by
  induction bytes generalizing line with
  | nil => cases h
  | cons b bytes ih =>
      rw [cutLine] at h
      split at h
      · obtain ⟨-, rfl⟩ := Prod.mk.inj (Option.some.inj h)
        exact Nat.lt_succ_self _
      · obtain ⟨⟨line', rest'⟩, hcut, hsame⟩ := Option.map_eq_some_iff.1 h
        obtain ⟨-, rfl⟩ := Prod.mk.inj hsame
        exact Nat.lt_succ_of_lt (ih hcut)

/-- The frames of a byte string. What is left over at its end is not yet a frame. -/
def framesOf (bytes : List UInt8) : List Frame :=
  match _hcut : cutLine bytes with
  | none => []
  | some (line, rest) =>
    match readLength? (lineText line) with
    | none => .malformed (String.ofList (lineText line)) :: framesOf rest
    | some length =>
      if rest.length < length then []
      else .payload (rest.take length) :: framesOf (rest.drop length)
termination_by bytes.length
decreasing_by
  · exact cutLine_length_lt _hcut
  · have := cutLine_length_lt _hcut
    simp only [List.length_drop]
    omega

theorem framesOf_of_none {bytes : List UInt8} (h : cutLine bytes = none) : framesOf bytes = [] := by
  rw [framesOf]
  split
  · rfl
  · rename_i hcut
    cases h.symm.trans hcut

theorem framesOf_of_some {bytes line rest : List UInt8} (h : cutLine bytes = some (line, rest)) :
    framesOf bytes =
      match readLength? (lineText line) with
      | none => .malformed (String.ofList (lineText line)) :: framesOf rest
      | some length =>
        if rest.length < length then []
        else .payload (rest.take length) :: framesOf (rest.drop length) := by
  rw [framesOf]
  split
  · rename_i hcut
    cases h.symm.trans hcut
  · rename_i line' rest' hcut
    obtain ⟨rfl, rfl⟩ := Prod.mk.inj (Option.some.inj (h.symm.trans hcut))
    rfl

/-- A decoder looks for the line feed in one go. -/
theorem cutLine_eq (bytes : List UInt8) :
    cutLine bytes =
      match bytes.dropWhile (· != 10) with
      | [] => none
      | _ :: rest => some (bytes.takeWhile (· != 10), rest) := by
  induction bytes with
  | nil => rfl
  | cons b bytes ih =>
      by_cases hb : b = 10
      · subst hb
        rfl
      · have hne : (b != 10) = true := by simpa using hb
        rw [cutLine, if_neg hb, ih]
        simp only [List.dropWhile_cons, List.takeWhile_cons, hne, if_true]
        cases bytes.dropWhile (· != 10) <;> rfl

/-! ## What a decoder stands for -/

namespace Decoder

/-- The frames in what a decoder holds. -/
def frames (d : Decoder) : List Frame :=
  match d.expected with
  | none => framesOf d.buffer
  | some length =>
    if d.buffer.length < length then []
    else .payload (d.buffer.take length) :: framesOf (d.buffer.drop length)

/-- The next frame is the first of them; a decoder that waits holds none. -/
theorem frames_eq (d : Decoder) :
    d.frames =
      match d.next with
      | (_, none) => []
      | (d', some f) => f :: d'.frames := by
  have payload : ∀ buffer length,
      (if buffer.length < length then []
        else Frame.payload (buffer.take length) :: framesOf (buffer.drop length)) =
      match takePayload buffer length with
      | (_, none) => []
      | (d', some f) => f :: d'.frames := by
    intro buffer length
    unfold takePayload
    split <;> rfl
  unfold next
  cases hexpected : d.expected with
  | some length =>
      simp only [frames, hexpected]
      exact payload d.buffer length
  | none =>
      simp only [frames, hexpected]
      cases hline : d.buffer.dropWhile (· != 10) with
      | nil => exact framesOf_of_none (by rw [cutLine_eq, hline])
      | cons b rest =>
          have hcut : cutLine d.buffer = some (d.buffer.takeWhile (· != 10), rest) := by
            rw [cutLine_eq, hline]
          rw [framesOf_of_some hcut]
          cases hlength : readLength? (lineText (d.buffer.takeWhile (· != 10))) with
          | some length => exact payload rest length
          | none => rfl

theorem frames_of_next_some {d d' : Decoder} {f : Frame} (h : d.next = (d', some f)) :
    d.frames = f :: d'.frames := by
  rw [frames_eq, h]

theorem frames_of_next_none {d d' : Decoder} (h : d.next = (d', none)) : d.frames = [] := by
  rw [frames_eq, h]

/-- The frames of a decoder show in what it does next. -/
theorem frames_congr {d e : Decoder} (h : d.next = e.next) : d.frames = e.frames := by
  rw [frames_eq, frames_eq e, h]

end Decoder

/-- From `d` to `d'`, the frames `out` were handed out: whatever bytes may follow, they are the
first of those that `d` stands for, and `d'` stands for the others. -/
def Yields (d : Decoder) (out : List Frame) (d' : Decoder) : Prop :=
  ∀ more, (d.extend more).frames = out ++ (d'.extend more).frames

namespace Yields

variable {d d' d'' : Decoder} {out out' : List Frame}

theorem refl (d : Decoder) : Yields d [] d := fun _ => rfl

theorem trans (h : Yields d out d') (h' : Yields d' out' d'') : Yields d (out ++ out') d'' := by
  intro more
  rw [h, h', List.append_assoc]

theorem extend (h : Yields d out d') (bytes : List UInt8) :
    Yields (d.extend bytes) out (d'.extend bytes) := by
  intro more
  rw [Decoder.extend_extend, h, Decoder.extend_extend]

theorem frames_eq (h : Yields d out d') : d.frames = out ++ d'.frames := by
  have hall := h []
  rw [Decoder.extend, Decoder.extend, List.append_nil, List.append_nil] at hall
  exact hall

/-- A frame is handed out. -/
theorem of_next_some {f : Frame} (h : d.next = (d', some f)) : Yields d [f] d' := by
  intro more
  rw [Decoder.frames_of_next_some (Decoder.next_extend_of_some h more)]
  rfl

/-- A decoder that had to wait stands for the same frames. -/
theorem of_next_none (h : d.next = (d', none)) : Yields d [] d' :=
  fun more => Decoder.frames_congr (Decoder.next_extend_of_none h more)

end Yields

/-! ## Feeding and asking in any order -/

/-- What is done with a decoder. -/
inductive Action
  /-- Bytes are added. -/
  | extend (bytes : List UInt8)
  /-- The next item is asked for. -/
  | ask
  deriving DecidableEq

/-- The bytes that actions add. -/
def bytesFed : List Action → List UInt8
  | [] => []
  | .extend bytes :: actions => bytes ++ bytesFed actions
  | .ask :: actions => bytesFed actions

/-- The decoder behind some actions, and the items that they got. -/
def Decoder.play {α : Type} (take : Decoder → Decoder × Option α) (d : Decoder) :
    List Action → Decoder × List α
  | [] => (d, [])
  | .extend bytes :: actions => (d.extend bytes).play take actions
  | .ask :: actions =>
    let (d, first) := take d
    let (d, rest) := d.play take actions
    (d, first.toList ++ rest)

/-- A decoder that is fed and asked in any order hands out the frames of all bytes. -/
theorem yields_play (d : Decoder) (actions : List Action) :
    Yields (d.extend (bytesFed actions)) (d.play Decoder.next actions).2
      (d.play Decoder.next actions).1 := by
  induction actions generalizing d with
  | nil =>
      rw [bytesFed, Decoder.extend, List.append_nil]
      exact .refl d
  | cons action actions ih =>
      cases action with
      | extend bytes =>
          rw [bytesFed, ← Decoder.extend_extend]
          exact ih (d.extend bytes)
      | ask =>
          rw [bytesFed, Decoder.play]
          rcases hnext : d.next with ⟨d', _ | f⟩
          · exact ((Yields.of_next_none hnext).extend _).trans (ih d')
          · exact ((Yields.of_next_some hnext).extend _).trans (ih d')

/-! ## Messages -/

/-- The payloads among frames. -/
def payloads : List Frame → List (List UInt8)
  | [] => []
  | .payload bytes :: frames => bytes :: payloads frames
  | .malformed _ :: frames => payloads frames

theorem payloads_append (front back : List Frame) :
    payloads (front ++ back) = payloads front ++ payloads back := by
  induction front with
  | nil => rfl
  | cons f front ih =>
      cases f with
      | payload bytes =>
          rw [List.cons_append, payloads, payloads, ih]
          rfl
      | malformed line =>
          rw [List.cons_append, payloads, payloads, ih]

section

variable {α : Type} {read : List UInt8 → Option α}

/-- No payload among the frames is a message. -/
def Refused (read : List UInt8 → Option α) (frames : List Frame) : Prop :=
  ∀ bytes ∈ payloads frames, read bytes = none

theorem refused_nil : Refused read [] := nofun

theorem refused_malformed (line : String) : Refused read [.malformed line] := nofun

theorem refused_payload {bytes : List UInt8} (h : read bytes = none) :
    Refused read [.payload bytes] := by
  intro other hother
  obtain rfl := List.mem_singleton.1 hother
  exact h

theorem Refused.append {front back : List Frame} (h : Refused read front)
    (h' : Refused read back) : Refused read (front ++ back) := by
  intro bytes hbytes
  rw [payloads_append] at hbytes
  exact (List.mem_append.1 hbytes).elim (h bytes) (h' bytes)

/-- What comes of asking a decoder for a message: it passes over frames that are none, and hands out
the first one or has no frame left. -/
inductive Asked (read : List UInt8 → Option α) (d : Decoder) : Decoder × Option α → Prop
  | message {skipped : List Frame} {bytes : List UInt8} {d' : Decoder} {a : α}
      (hskipped : Refused read skipped) (hread : read bytes = some a)
      (hyields : Yields d (skipped ++ [.payload bytes]) d') : Asked read d (d', some a)
  | waits {skipped : List Frame} {d' : Decoder} (hskipped : Refused read skipped)
      (hyields : Yields d skipped d') (hframes : d'.frames = []) : Asked read d (d', none)

/-- Frames that are no messages make no difference. -/
theorem Asked.skip {d d' : Decoder} {front : List Frame} {result : Decoder × Option α}
    (h : Asked read d' result) (hyields : Yields d front d') (hfront : Refused read front) :
    Asked read d result := by
  cases h with
  | message hskipped hread hrest =>
      refine .message (hfront.append hskipped) hread ?_
      rw [List.append_assoc]
      exact hyields.trans hrest
  | waits hskipped hrest hframes =>
      exact .waits (hfront.append hskipped) (hyields.trans hrest) hframes

theorem asked_nextMessage (d : Decoder) : Asked read d (d.nextMessage read) := by
  induction d using Decoder.nextMessage.induct read with
  | case1 d d' hnext =>
      rw [Decoder.nextMessage_of_none hnext]
      have hyields := Yields.of_next_none hnext
      have hframes := hyields.frames_eq
      rw [Decoder.frames_of_next_none hnext] at hframes
      exact .waits refused_nil hyields hframes.symm
  | case2 d d' line hnext ih =>
      rw [Decoder.nextMessage_of_malformed hnext]
      exact ih.skip (.of_next_some hnext) (refused_malformed line)
  | case3 d d' bytes hnext a hread =>
      rw [Decoder.nextMessage_of_payload hnext, hread]
      exact .message refused_nil hread (.of_next_some hnext)
  | case4 d d' bytes hnext hread ih =>
      rw [Decoder.nextMessage_of_payload hnext, hread]
      exact ih.skip (.of_next_some hnext) (refused_payload hread)

/-! ## Readers -/

/-- The bytes of the reads up to where reading ends next, how it ends, and the reads behind. -/
def untilEnd : List Read → List UInt8 × Ending × List Read
  | [] => ([], .closed, [])
  | .interrupted :: reads => untilEnd reads
  | .failed :: reads => ([], .failed, reads)
  | .bytes [] :: reads => ([], .closed, reads)
  | .bytes (b :: bytes) :: reads =>
    (b :: bytes ++ (untilEnd reads).1, (untilEnd reads).2.1, (untilEnd reads).2.2)

/-- What comes of filling a decoder. -/
theorem fill_spec {d d' : Decoder} {reads reads' : List Read} {ending : Option Ending}
    (h : fill d reads = (d', reads', ending)) :
    (∃ bytes, ending = none ∧ d' = d.extend bytes ∧
        untilEnd reads = (bytes ++ (untilEnd reads').1, (untilEnd reads').2)) ∨
      ∃ e, ending = some e ∧ d' = d ∧ untilEnd reads = ([], e, reads') := by
  induction reads with
  | nil =>
      simp only [fill, Prod.mk.injEq] at h
      obtain ⟨rfl, rfl, rfl⟩ := h
      exact Or.inr ⟨.closed, rfl, rfl, rfl⟩
  | cons first reads ih =>
      cases first with
      | interrupted => exact ih h
      | failed =>
          simp only [fill, Prod.mk.injEq] at h
          obtain ⟨rfl, rfl, rfl⟩ := h
          exact Or.inr ⟨.failed, rfl, rfl, rfl⟩
      | bytes piece =>
          cases piece with
          | nil =>
              simp only [fill, Prod.mk.injEq] at h
              obtain ⟨rfl, rfl, rfl⟩ := h
              exact Or.inr ⟨.closed, rfl, rfl, rfl⟩
          | cons b bytes =>
              simp only [fill, Prod.mk.injEq] at h
              obtain ⟨rfl, rfl, rfl⟩ := h
              exact Or.inl ⟨b :: bytes, rfl, rfl, rfl⟩

/-- What comes of asking a reader for a message: it reads on as far as it needs, up to where reading
ends, and does what a decoder does that has all the bytes from the start. -/
inductive Got (read : List UInt8 → Option α) (r : Reader) : Reader × Answer α → Prop
  | item {bytes : List UInt8} {r' : Reader} {a : α}
      (hreads : untilEnd r.reads = (bytes ++ (untilEnd r'.reads).1, (untilEnd r'.reads).2))
      (hasked : Asked read (r.decoder.extend bytes) (r'.decoder, some a)) : Got read r (r', .item a)
  | ended {r' : Reader} {ending : Ending} {bytes : List UInt8}
      (hreads : untilEnd r.reads = (bytes, ending, r'.reads))
      (hasked : Asked read (r.decoder.extend bytes) (r'.decoder, none)) :
      Got read r (r', .ended ending)

theorem Asked.extend_none {d d' : Decoder} (h : Asked read d (d', none)) (bytes : List UInt8) :
    ∃ skipped, Refused read skipped ∧ Yields (d.extend bytes) skipped (d'.extend bytes) := by
  cases h with
  | waits hskipped hyields _ => exact ⟨_, hskipped, hyields.extend bytes⟩

theorem got_get (r : Reader) : Got read r (r.get (Decoder.nextMessage read)) := by
  induction r using Reader.get.induct (Decoder.nextMessage read) with
  | case1 r d a htake =>
      have hget : r.get (Decoder.nextMessage read) = ({ r with decoder := d }, .item a) := by
        rw [Reader.get, htake]
      rw [hget]
      have hreads : untilEnd r.reads = ([] ++ (untilEnd r.reads).1, (untilEnd r.reads).2) := rfl
      refine .item hreads ?_
      rw [Decoder.extend, List.append_nil, ← htake]
      exact asked_nextMessage r.decoder
  | case2 r d htake d' reads ending hfill =>
      have hget : r.get (Decoder.nextMessage read) = (⟨d', reads⟩, .ended ending) := by
        rw [Reader.get, htake]
        simp only
        split <;> simp_all
      rw [hget]
      rcases fill_spec hfill with ⟨-, hnone, -⟩ | ⟨e, hsome, rfl, huntil⟩
      · cases hnone
      · obtain rfl := Option.some.inj hsome
        refine .ended huntil ?_
        rw [Decoder.extend, List.append_nil, ← htake]
        exact asked_nextMessage r.decoder
  | case3 r d htake d' reads hfill ih =>
      have hget : r.get (Decoder.nextMessage read) =
          Reader.get (Decoder.nextMessage read) ⟨d', reads⟩ := by
        rw [Reader.get, htake]
        simp only
        split <;> simp_all
      rw [hget]
      rcases fill_spec hfill with ⟨bytes, -, rfl, huntil⟩ | ⟨e, hsome, -⟩
      · have hwaits : Asked read r.decoder (r.decoder.nextMessage read) :=
          asked_nextMessage r.decoder
        rw [htake] at hwaits
        generalize Reader.get (Decoder.nextMessage read) ⟨d.extend bytes, reads⟩ = result at ih
        cases ih with
        | @item more r' a hreads hasked =>
            obtain ⟨skipped, hskipped, hyields⟩ := hwaits.extend_none (bytes ++ more)
            rw [Decoder.extend_extend] at hasked
            refine .item ?_ (hasked.skip hyields hskipped)
            rw [huntil, hreads, List.append_assoc]
        | @ended r' ending more hreads hasked =>
            obtain ⟨skipped, hskipped, hyields⟩ := hwaits.extend_none (bytes ++ more)
            rw [Decoder.extend_extend] at hasked
            refine .ended ?_ (hasked.skip hyields hskipped)
            rw [huntil, hreads]
      · cases hsome

end

/-! ## Any mix of calls on one reader -/

/-- What a reader is asked for. -/
inductive Call
  /-- The payload of a frame, whatever it is. -/
  | frame
  /-- A message. -/
  | message
  deriving DecidableEq, Repr

/-- The item of an answer, seen otherwise. -/
def Answer.map {α β : Type} (f : α → β) : Answer α → Answer β
  | .item a => .item (f a)
  | .ended ending => .ended ending

section

variable {α : Type} (decode : List UInt8 → Option α)

/-- Asks a reader, and tells payloads from messages. -/
def Reader.ask (r : Reader) : Call → Reader × Answer (List UInt8 ⊕ α)
  | .frame => ((r.get nextPayload).1, (r.get nextPayload).2.map .inl)
  | .message =>
    ((r.get (Decoder.nextMessage decode)).1, (r.get (Decoder.nextMessage decode)).2.map .inr)

/-- The answers to calls one after another. -/
def Reader.answers (r : Reader) : List Call → List (Answer (List UInt8 ⊕ α))
  | [] => []
  | call :: calls => (r.ask decode call).2 :: Reader.answers (r.ask decode call).1 calls

/-- What a payload is to a call. -/
def Call.read : Call → List UInt8 → Option (List UInt8 ⊕ α)
  | .frame, bytes => some (.inl bytes)
  | .message, bytes => (decode bytes).map .inr

end

section

variable {α β : Type}

/-- The first payload that is something to `read`, and how many stand before it. -/
def firstRead (read : List UInt8 → Option β) : List (List UInt8) → Option (Nat × β)
  | [] => none
  | bytes :: rest =>
    match read bytes with
    | some b => some (0, b)
    | none => (firstRead read rest).map fun (before, b) => (before + 1, b)

theorem firstRead_append {read : List UInt8 → Option β} {front : List (List UInt8)}
    (hfront : ∀ bytes ∈ front, read bytes = none) {bytes : List UInt8} {b : β}
    (hread : read bytes = some b) (back : List (List UInt8)) :
    firstRead read (front ++ bytes :: back) = some (front.length, b) := by
  induction front with
  | nil => rw [List.nil_append, firstRead, hread]; rfl
  | cons first front ih =>
      rw [List.cons_append, firstRead, hfront first List.mem_cons_self,
        ih fun other hother => hfront other (List.mem_cons_of_mem first hother)]
      rfl

theorem firstRead_eq_none {read : List UInt8 → Option β} {all : List (List UInt8)}
    (hall : ∀ bytes ∈ all, read bytes = none) : firstRead read all = none := by
  induction all with
  | nil => rfl
  | cons first all ih =>
      rw [firstRead, hall first List.mem_cons_self,
        ih fun other hother => hall other (List.mem_cons_of_mem first hother)]
      rfl

theorem firstRead_map {γ : Type} (read : List UInt8 → Option β) (f : β → γ)
    (all : List (List UInt8)) :
    firstRead (fun bytes => (read bytes).map f) all =
      (firstRead read all).map fun (before, b) => (before, f b) := by
  induction all with
  | nil => rfl
  | cons first all ih =>
      rw [firstRead, firstRead, ih]
      cases read first with
      | some b => rfl
      | none => cases firstRead read all <;> rfl

/-- The payloads in the bytes up to where reading ends next, together with the bytes before them;
without the first `taken`. -/
def pending (fed : List UInt8) (taken : Nat) (reads : List Read) : List (List UInt8) :=
  (payloads (framesOf (fed ++ (untilEnd reads).1))).drop taken

/-- What the answers are to be, behind the bytes `fed` and `taken` payloads that were handed out or
passed over. A call gets the first payload that is something to it; if there is none, reading has
ended, and goes on behind that end. -/
def expectedAnswers (decode : List UInt8 → Option α) :
    (fed : List UInt8) → (taken : Nat) → List Read → List Call → List (Answer (List UInt8 ⊕ α))
  | _, _, _, [] => []
  | fed, taken, reads, call :: calls =>
    match firstRead (call.read decode) (pending fed taken reads) with
    | some (before, a) => .item a :: expectedAnswers decode fed (taken + before + 1) reads calls
    | none =>
      .ended (untilEnd reads).2.1 ::
        expectedAnswers decode (fed ++ (untilEnd reads).1)
          (payloads (framesOf (fed ++ (untilEnd reads).1))).length (untilEnd reads).2.2 calls

/-- A reader that has come some way: it has handed out or passed over the first `taken` payloads of
the bytes that it was fed, which are `fed` and some of the bytes of `reads` up to the next end. -/
def Tracks (fed : List UInt8) (taken : Nat) (reads : List Read) (r : Reader) : Prop :=
  ∃ bytes out, untilEnd reads = (bytes ++ (untilEnd r.reads).1, (untilEnd r.reads).2) ∧
    Yields ⟨fed ++ bytes, none⟩ out r.decoder ∧ (payloads out).length = taken

theorem Tracks.start (reads : List Read) : Tracks [] 0 reads ⟨{}, reads⟩ :=
  ⟨[], [], rfl, .refl {}, rfl⟩

/-- The frames of bytes are those that a new decoder stands for that holds them. -/
theorem framesOf_of_yields {bytes : List UInt8} {out : List Frame} {d : Decoder}
    (h : Yields ⟨bytes, none⟩ out d) : framesOf bytes = out ++ d.frames := h.frames_eq

variable {decode : List UInt8 → Option α} {fed : List UInt8} {taken : Nat} {reads : List Read}
  {r : Reader}

/-- A reader that was asked is where it should be, for what was found among the payloads. -/
def Answered (fed : List UInt8) (taken : Nat) (reads : List Read) (found : Option (Nat × β))
    (result : Reader × Answer β) : Prop :=
  match found with
  | some (before, b) => result.2 = .item b ∧ Tracks fed (taken + before + 1) reads result.1
  | none =>
    result.2 = .ended (untilEnd reads).2.1 ∧
      Tracks (fed ++ (untilEnd reads).1) (payloads (framesOf (fed ++ (untilEnd reads).1))).length
        (untilEnd reads).2.2 result.1

theorem Answered.map {γ : Type} {found : Option (Nat × β)} {result : Reader × Answer β}
    (h : Answered fed taken reads found result) (f : β → γ) :
    Answered fed taken reads (found.map fun (before, b) => (before, f b))
      (result.1, result.2.map f) := by
  cases found with
  | some found => exact ⟨congrArg (Answer.map f) h.1, h.2⟩
  | none => exact ⟨congrArg (Answer.map f) h.1, h.2⟩

/-- What a reader does on the way. -/
theorem Tracks.got (h : Tracks fed taken reads r) {read : List UInt8 → Option β}
    {result : Reader × Answer β} (hgot : Got read r result) :
    Answered fed taken reads (firstRead read (pending fed taken reads)) result := by
  obtain ⟨bytes, out, hreads, hyields, htaken⟩ := h
  cases hgot with
  | @item more r' b hmore hasked =>
      cases hasked with
      | @message skipped payload d' b hskipped hread hrest =>
          have hall : Yields ⟨fed ++ bytes ++ more, none⟩ (out ++ (skipped ++ [.payload payload]))
              r'.decoder := (hyields.extend more).trans hrest
          have hsplit : untilEnd reads =
              (bytes ++ more ++ (untilEnd r'.reads).1, (untilEnd r'.reads).2) := by
            rw [hreads, hmore, List.append_assoc]
          have hframes : framesOf (fed ++ bytes ++ more ++ (untilEnd r'.reads).1) =
              out ++ (skipped ++ [.payload payload]) ++
                (r'.decoder.extend (untilEnd r'.reads).1).frames :=
            framesOf_of_yields (hall.extend (untilEnd r'.reads).1)
          have hdrop : pending fed taken reads =
              payloads skipped ++
                payload :: payloads (r'.decoder.extend (untilEnd r'.reads).1).frames := by
            rw [pending, hsplit, ← htaken]
            simp only [← List.append_assoc] at hframes ⊢
            rw [hframes]
            simp [payloads_append, payloads]
          rw [hdrop, firstRead_append hskipped hread]
          refine ⟨rfl, bytes ++ more, out ++ (skipped ++ [.payload payload]), hsplit, ?_, ?_⟩
          · rw [← List.append_assoc]
            exact hall
          · rw [payloads_append, payloads_append, List.length_append, List.length_append, htaken,
              ← Nat.add_assoc]
            rfl
  | @ended r' ending more hmore hasked =>
      cases hasked with
      | @waits skipped d' hskipped hrest hnone =>
          have hall : Yields ⟨fed ++ bytes ++ more, none⟩ (out ++ skipped) r'.decoder :=
            (hyields.extend more).trans hrest
          have hframes := framesOf_of_yields hall
          rw [hnone, List.append_nil] at hframes
          have hsplit : untilEnd reads = (bytes ++ more, ending, r'.reads) := by
            rw [hreads, hmore]
          rw [List.append_assoc] at hall hframes
          have hdrop : pending fed taken reads = payloads skipped := by
            rw [pending, hsplit, hframes, payloads_append, ← htaken, List.drop_left]
          rw [hdrop, firstRead_eq_none hskipped, Answered, hsplit]
          refine ⟨rfl, [], out ++ skipped, rfl, ?_, ?_⟩
          · rw [List.append_nil]
            exact hall
          · rw [hframes]

/-- What a call gets. -/
theorem Tracks.ask (h : Tracks fed taken reads r) (call : Call) :
    Answered fed taken reads (firstRead (call.read decode) (pending fed taken reads))
      (r.ask decode call) := by
  cases call with
  | frame =>
      have hread : Call.read decode .frame = fun bytes => (some bytes).map Sum.inl := rfl
      rw [hread, firstRead_map]
      exact (h.got (got_get r)).map Sum.inl
  | message =>
      have hread : Call.read decode .message = fun bytes => (decode bytes).map Sum.inr := rfl
      rw [hread, firstRead_map]
      exact (h.got (got_get r)).map Sum.inr

/-- A reader answers from the frames in the bytes up to where reading ends next. -/
theorem Tracks.answers (h : Tracks fed taken reads r) (calls : List Call) :
    r.answers decode calls = expectedAnswers decode fed taken reads calls := by
  induction calls generalizing fed taken reads r with
  | nil => rfl
  | cons call calls ih =>
      have hask : Answered fed taken reads
          (firstRead (call.read decode) (pending fed taken reads)) (r.ask decode call) := h.ask call
      rw [Reader.answers, expectedAnswers]
      cases hfirst : firstRead (call.read decode) (pending fed taken reads) with
      | some found =>
          rw [hfirst] at hask
          rw [hask.1, ih hask.2]
      | none =>
          rw [hfirst] at hask
          rw [hask.1, ih hask.2]

end

/-! ## Written frames -/

theorem isAscii_of_isDigit {c : Char} (h : c.isDigit = true) : Text.Utf8.IsAscii c := by
  have hle : c.toNat ≤ 57 := by
    simp only [Char.isDigit, Bool.and_eq_true, decide_eq_true_eq] at h
    exact h.2
  exact Nat.lt_of_le_of_lt hle (by decide)

theorem isDigit_of_mem_toString {n : Nat} {c : Char} (h : c ∈ (toString n).toList) :
    c.isDigit = true := by
  rw [Nat.toString_eq_ofList_toDigits, String.toList_ofList] at h
  exact Nat.isDigit_of_mem_toDigits (by decide) (by decide) h

theorem toString_toList_ne_nil (n : Nat) : (toString n).toList ≠ [] := by
  rw [Nat.toString_eq_ofList_toDigits, String.toList_ofList]
  exact Nat.toDigits_ne_nil

/-- Digits without a sign are the number that they write. -/
theorem readLength?_of_isDigit {cs : List Char} (hne : cs ≠ [])
    (hdigits : ∀ c ∈ cs, c.isDigit = true) :
    readLength? cs =
      if cs.foldl (fun n c => n * 10 + (c.toNat - '0'.toNat)) 0 < UInt64.size then
        some (cs.foldl (fun n c => n * 10 + (c.toNat - '0'.toNat)) 0)
      else none := by
  have hall : cs.all Char.isDigit = true := List.all_eq_true.2 hdigits
  unfold readLength?
  split
  · have hplus := hdigits '+' List.mem_cons_self
    cases hplus
  · exact if_pos ⟨hne, hall⟩

/-- The digits of a number are read as the number if it fits a length, and as none if it does not. -/
theorem readLength?_toString_eq (n : Nat) :
    readLength? (toString n).toList = if n < UInt64.size then some n else none := by
  have hvalue : (toString n).toList.foldl (fun n c => n * 10 + (c.toNat - '0'.toNat)) 0 = n := by
    have hten := Nat.ofDigitChars_ten_toDigits (n := n)
    rw [Nat.toString_eq_ofList_toDigits, String.toList_ofList]
    simpa [Nat.ofDigitChars, Nat.mul_comm] using hten
  rw [readLength?_of_isDigit (toString_toList_ne_nil n) fun c hc => isDigit_of_mem_toString hc,
    hvalue]

/-- A number that fits a length reads back from its digits. -/
theorem readLength?_toString {n : Nat} (h : n < UInt64.size) :
    readLength? (toString n).toList = some n := by
  rw [readLength?_toString_eq, if_pos h]

/-- The length line of a frame is the length. -/
theorem lineText_encode_toString (n : Nat) :
    lineText (Text.Utf8.encode (toString n)) = (toString n).toList := by
  have hdigits : ∀ c ∈ (toString n).toList, c.isDigit = true :=
    fun c hc => isDigit_of_mem_toString hc
  rw [lineText, Text.Utf8.decodeLossy_encode_of_ascii fun c hc => isAscii_of_isDigit (hdigits c hc)]
  generalize (toString n).toList = cs at hdigits
  have hkeep : cs.reverse.dropWhile (· == '\r') = cs.reverse := by
    cases hlast : cs.reverse with
    | nil => rfl
    | cons c front =>
        have hc := hdigits c (List.mem_reverse.1 (hlast ▸ List.mem_cons_self))
        refine List.dropWhile_cons_of_neg ?_
        intro hreturn
        rw [beq_iff_eq.1 hreturn] at hc
        cases hc
  rw [hkeep, List.reverse_reverse]

theorem newline_not_mem_encode_toString (n : Nat) : 10 ∉ Text.Utf8.encode (toString n) := by
  have hdigits : ∀ c ∈ (toString n).toList, c.isDigit = true :=
    fun c hc => isDigit_of_mem_toString hc
  rw [Text.Utf8.encode_of_isAscii fun c hc => isAscii_of_isDigit (hdigits c hc)]
  intro hmem
  obtain ⟨c, hc, hten⟩ := List.mem_map.1 hmem
  have hdigit := hdigits c hc
  have hnat := Text.Utf8.toNat_toUInt8_of_isAscii (isAscii_of_isDigit hdigit)
  rw [hten] at hnat
  simp only [Char.isDigit, Bool.and_eq_true, decide_eq_true_eq] at hdigit
  have hge : 48 ≤ c.toNat := hdigit.1
  rw [← hnat] at hge
  exact absurd hge (by decide)

theorem cutLine_append {line : List UInt8} (h : 10 ∉ line) (rest : List UInt8) :
    cutLine (line ++ 10 :: rest) = some (line, rest) := by
  induction line with
  | nil => rfl
  | cons b line ih =>
      have hb : b ≠ 10 := fun heq => h (heq ▸ List.mem_cons_self)
      rw [List.cons_append, cutLine, if_neg hb, ih fun hmem => h (List.mem_cons_of_mem b hmem)]
      rfl

theorem cutLine_encodeFrame (payload rest : List UInt8) :
    cutLine (encodeFrame payload ++ rest) =
      some (Text.Utf8.encode (toString payload.length), payload ++ rest) := by
  rw [encodeFrame, List.append_assoc]
  exact cutLine_append (newline_not_mem_encode_toString _) _

/-- A written frame is read as its payload. -/
theorem framesOf_encodeFrame {payload : List UInt8} (h : payload.length < UInt64.size)
    (rest : List UInt8) :
    framesOf (encodeFrame payload ++ rest) = .payload payload :: framesOf rest := by
  have hlong : ¬(payload ++ rest).length < payload.length := by
    rw [List.length_append]
    omega
  rw [framesOf_of_some (cutLine_encodeFrame payload rest), lineText_encode_toString,
    readLength?_toString h]
  simp only
  rw [if_neg hlong, List.take_left, List.drop_left]

/-- The frames of encoded payloads. -/
theorem framesOf_flatMap_encodeFrame {sent : List (List UInt8)}
    (h : ∀ payload ∈ sent, payload.length < UInt64.size) :
    framesOf (sent.flatMap encodeFrame) = sent.map .payload := by
  induction sent with
  | nil => exact framesOf_of_none rfl
  | cons payload sent ih =>
      rw [List.flatMap_cons, framesOf_encodeFrame (h payload List.mem_cons_self),
        ih fun other hother => h other (List.mem_cons_of_mem payload hother), List.map_cons]

/-- What a decoder does with a whole line. -/
theorem next_of_cutLine {buffer line rest : List UInt8} (h : cutLine buffer = some (line, rest)) :
    (⟨buffer, none⟩ : Decoder).next =
      match readLength? (lineText line) with
      | some length => Decoder.takePayload rest length
      | none => (⟨rest, none⟩, some (.malformed (String.ofList (lineText line)))) := by
  rw [cutLine_eq] at h
  rw [Decoder.next]
  cases hdrop : buffer.dropWhile (· != 10) with
  | nil =>
      rw [hdrop] at h
      cases h
  | cons b rest' =>
      rw [hdrop] at h
      obtain ⟨rfl, rfl⟩ := Prod.mk.inj (Option.some.inj h)
      rfl

theorem next_encodeFrame {payload : List UInt8} (h : payload.length < UInt64.size)
    (rest : List UInt8) :
    (⟨encodeFrame payload ++ rest, none⟩ : Decoder).next =
      (⟨rest, none⟩, some (.payload payload)) := by
  have hlong : ¬(payload ++ rest).length < payload.length := by
    rw [List.length_append]
    omega
  rw [next_of_cutLine (cutLine_encodeFrame payload rest), lineText_encode_toString,
    readLength?_toString h]
  simp only
  rw [Decoder.takePayload, if_neg hlong, List.take_left, List.drop_left]

/-- A decoder gets encoded payloads back, and keeps nothing. -/
theorem takeAll_next_encodeFrame {sent : List (List UInt8)}
    (h : ∀ payload ∈ sent, payload.length < UInt64.size) {limit : Nat}
    (hlimit : sent.length ≤ limit) :
    takeAll Decoder.next limit ⟨sent.flatMap encodeFrame, none⟩ = ({}, sent.map .payload) := by
  induction sent generalizing limit with
  | nil => cases limit <;> rfl
  | cons payload sent ih =>
      obtain ⟨limit, rfl⟩ : ∃ k, limit = k + 1 := ⟨limit - 1, by simp at hlimit; omega⟩
      have hrest := ih (fun other hother => h other (List.mem_cons_of_mem payload hother))
        (Nat.le_of_succ_le_succ hlimit)
      rw [List.flatMap_cons, takeAll, next_encodeFrame (h payload List.mem_cons_self)]
      simp only [hrest, List.map_cons]

/-! ## Decoding depends on the bytes only -/

/-- A decoder that is fed and asked in any order hands out the frames of the bytes it was fed, and
has handed out all of them when it has to wait. A reader, over any reads, answers any mix of calls
from the frames of the bytes. Encoded payloads are read back, and nothing is left. -/
theorem decoding_depends_on_bytes :
    (∀ actions : List Action,
      (({} : Decoder).play Decoder.next actions).2 <+: framesOf (bytesFed actions) ∧
        ((({} : Decoder).play Decoder.next actions).1.next.2 = none →
          (({} : Decoder).play Decoder.next actions).2 = framesOf (bytesFed actions))) ∧
      (∀ (α : Type) (decode : List UInt8 → Option α) (reads : List Read) (calls : List Call),
        Reader.answers decode ⟨{}, reads⟩ calls = expectedAnswers decode [] 0 reads calls) ∧
      ∀ sent : List (List UInt8), (∀ payload ∈ sent, payload.length < UInt64.size) →
        framesOf (sent.flatMap encodeFrame) = sent.map .payload ∧
          ∀ limit, sent.length ≤ limit →
            (takeAll Decoder.next limit (({} : Decoder).extend (sent.flatMap encodeFrame))).2 =
              sent.map .payload ∧
            (takeAll Decoder.next limit
              (({} : Decoder).extend (sent.flatMap encodeFrame))).1.buffered = 0 := by
  refine ⟨fun actions => ?_, fun α decode reads calls => ?_, fun sent hsent => ⟨?_, ?_⟩⟩
  · have hyields := yields_play {} actions
    have hframes : framesOf (bytesFed actions) =
        (({} : Decoder).play Decoder.next actions).2 ++
          (({} : Decoder).play Decoder.next actions).1.frames :=
      hyields.frames_eq
    refine ⟨⟨_, hframes.symm⟩, fun hwaits => ?_⟩
    have hnone := Decoder.frames_of_next_none (Prod.ext rfl hwaits)
    rw [hframes, hnone, List.append_nil]
  · exact (Tracks.start reads).answers calls
  · exact framesOf_flatMap_encodeFrame hsent
  · intro limit hlimit
    have htaken : takeAll Decoder.next limit (({} : Decoder).extend (sent.flatMap encodeFrame)) =
        ({}, sent.map .payload) := takeAll_next_encodeFrame hsent hlimit
    rw [htaken]
    exact ⟨rfl, rfl⟩

/-- An empty payload, and one with a line feed and half a character, are read back. -/
theorem decoding_depends_on_bytes_odd_payloads :
    (∀ payload ∈ ([[], [0x0A, 0xC3]] : List (List UInt8)), payload.length < UInt64.size) ∧
      framesOf (([[], [0x0A, 0xC3]] : List (List UInt8)).flatMap encodeFrame) =
        [.payload [], .payload [0x0A, 0xC3]] := by
  have hshort : ∀ payload ∈ ([[], [0x0A, 0xC3]] : List (List UInt8)),
      payload.length < UInt64.size := by decide
  exact ⟨hshort, (decoding_depends_on_bytes.2.2 _ hshort).1⟩

end ScriptDebugger.Wire
