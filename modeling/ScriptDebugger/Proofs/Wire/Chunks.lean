import ScriptDebugger.Wire.Link
/-!
# Bytes that come in pieces

A decoder is fed as bytes arrive. What it hands out does not depend on where the stream is cut: an
item that is handed out early is the one that would come out of the whole stream, and a decoder that
has to wait goes on, with more bytes, as if they had been there from the start.

## Main results

* `next_extend_of_some`, `next_extend_of_none` — frames and further bytes.
* `nextMessage_extend_of_some`, `nextMessage_extend_of_none` — the same for messages.
* `messages_extend_of_some`, `messages_extend_of_none` — all messages of a stream, whenever the
  decoder is asked for the next one.
-/

namespace ScriptDebugger.Wire

namespace Decoder

theorem extend_extend (d : Decoder) (front back : List UInt8) :
    (d.extend front).extend back = d.extend (front ++ back) := by
  simp only [extend, List.append_assoc]

/-! ## Frames -/

theorem takePayload_extend_of_some {buffer : List UInt8} {length : Nat} {d : Decoder} {f : Frame}
    (h : takePayload buffer length = (d, some f)) (more : List UInt8) :
    takePayload (buffer ++ more) length = (d.extend more, some f) := by
  unfold takePayload at h
  split at h
  · cases h
  · rename_i hlong
    obtain ⟨rfl, rfl⟩ : _ = d ∧ _ = f := by simpa using h
    have hle : length ≤ buffer.length := Nat.le_of_not_lt hlong
    have hmore : ¬(buffer ++ more).length < length := by
      rw [List.length_append]
      omega
    rw [takePayload, if_neg hmore, List.drop_append_of_le_length hle,
      List.take_append_of_le_length hle]
    rfl

theorem takePayload_of_none {buffer : List UInt8} {length : Nat} {d : Decoder}
    (h : takePayload buffer length = (d, none)) : d = ⟨buffer, some length⟩ := by
  unfold takePayload at h
  split at h
  · exact (Prod.mk.inj h).1.symm
  · cases h

/-- What stands before the first line feed, and what stands from there on, do not change when bytes
are added behind. -/
theorem cut_append {buffer rest : List UInt8} {b : UInt8}
    (h : buffer.dropWhile (· != 10) = b :: rest) (more : List UInt8) :
    (buffer ++ more).dropWhile (· != 10) = b :: (rest ++ more) ∧
      (buffer ++ more).takeWhile (· != 10) = buffer.takeWhile (· != 10) := by
  generalize hp : (fun c : UInt8 => c != 10) = p at h ⊢
  induction buffer with
  | nil => cases h
  | cons c buffer ih =>
      by_cases hc : p c = true
      · rw [List.dropWhile_cons_of_pos hc] at h
        obtain ⟨hdrop, htake⟩ := ih h
        rw [List.cons_append, List.dropWhile_cons_of_pos hc, List.takeWhile_cons_of_pos hc,
          List.takeWhile_cons_of_pos hc, hdrop, htake]
        exact ⟨rfl, rfl⟩
      · rw [List.dropWhile_cons_of_neg hc] at h
        obtain ⟨rfl, rfl⟩ := List.cons.inj h
        rw [List.cons_append, List.dropWhile_cons_of_neg hc, List.takeWhile_cons_of_neg hc,
          List.takeWhile_cons_of_neg hc]
        exact ⟨rfl, rfl⟩

/-- A frame that is complete comes out the same when more bytes are there. -/
theorem next_extend_of_some {d d' : Decoder} {f : Frame} (h : d.next = (d', some f))
    (more : List UInt8) : (d.extend more).next = (d'.extend more, some f) := by
  unfold next at h ⊢
  simp only [extend]
  cases hexpected : d.expected with
  | some length =>
      simp only [hexpected] at h ⊢
      exact takePayload_extend_of_some h more
  | none =>
      simp only [hexpected] at h ⊢
      cases hline : d.buffer.dropWhile (· != 10) with
      | nil =>
          rw [hline] at h
          cases h
      | cons b rest =>
          rw [hline] at h
          obtain ⟨hdrop, htake⟩ := cut_append hline more
          rw [hdrop, htake]
          simp only at h ⊢
          split at h
          · exact takePayload_extend_of_some h more
          · obtain ⟨rfl, rfl⟩ : _ = d' ∧ _ = f := by simpa using h
            rfl

/-- A decoder that waits goes on, with more bytes, as if it had not been asked. -/
theorem next_extend_of_none {d d' : Decoder} (h : d.next = (d', none)) (more : List UInt8) :
    (d.extend more).next = (d'.extend more).next := by
  unfold next at h
  cases hexpected : d.expected with
  | some length =>
      simp only [hexpected] at h
      rw [takePayload_of_none h, ← hexpected]
  | none =>
      simp only [hexpected] at h
      cases hline : d.buffer.dropWhile (· != 10) with
      | nil =>
          rw [hline] at h
          rw [(Prod.mk.inj h).1]
      | cons b rest =>
          rw [hline] at h
          simp only at h
          split at h
          · rename_i length hlength
            obtain ⟨hdrop, htake⟩ := cut_append hline more
            rw [takePayload_of_none h]
            simp only [next, extend, hexpected, hdrop, htake, hlength]
          · cases h

/-! ## Messages -/

section

variable {α : Type} {read : List UInt8 → Option α}

theorem nextMessage_of_none {d d' : Decoder} (h : d.next = (d', none)) :
    d.nextMessage read = (d', none) := by
  rw [nextMessage]
  split <;> simp_all

theorem nextMessage_of_malformed {d d' : Decoder} {line : String}
    (h : d.next = (d', some (.malformed line))) : d.nextMessage read = d'.nextMessage read := by
  rw [nextMessage]
  split <;> simp_all

theorem nextMessage_of_payload {d d' : Decoder} {bytes : List UInt8}
    (h : d.next = (d', some (.payload bytes))) :
    d.nextMessage read =
      match read bytes with
      | some message => (d', some message)
      | none => d'.nextMessage read := by
  rw [nextMessage]
  split
  · simp_all
  · simp_all
  · rename_i d₁ bytes₁ heq
    obtain ⟨rfl, rfl⟩ : d₁ = d' ∧ bytes₁ = bytes := by simpa [heq] using h
    rfl

/-- Every message uses up some of what the decoder holds. -/
theorem nextMessage_weight_lt {d d' : Decoder} {a : α} (h : d.nextMessage read = (d', some a)) :
    d'.weight < d.weight := by
  induction d using nextMessage.induct read with
  | case1 d d₁ hnext =>
      rw [nextMessage_of_none hnext] at h
      cases h
  | case2 d d₁ line hnext ih =>
      rw [nextMessage_of_malformed hnext] at h
      exact Nat.lt_trans (ih h) (next_weight_lt hnext)
  | case3 d d₁ bytes hnext message hread =>
      rw [nextMessage_of_payload hnext, hread] at h
      obtain ⟨rfl, -⟩ := Prod.mk.inj h
      exact next_weight_lt hnext
  | case4 d d₁ bytes hnext hread ih =>
      rw [nextMessage_of_payload hnext, hread] at h
      exact Nat.lt_trans (ih h) (next_weight_lt hnext)

theorem nextMessage_extend_of_some {d d' : Decoder} {a : α}
    (h : d.nextMessage read = (d', some a)) (more : List UInt8) :
    (d.extend more).nextMessage read = (d'.extend more, some a) := by
  induction d using nextMessage.induct read with
  | case1 d d₁ hnext =>
      rw [nextMessage_of_none hnext] at h
      cases h
  | case2 d d₁ line hnext ih =>
      rw [nextMessage_of_malformed hnext] at h
      rw [nextMessage_of_malformed (next_extend_of_some hnext more)]
      exact ih h
  | case3 d d₁ bytes hnext message hread =>
      rw [nextMessage_of_payload hnext, hread] at h
      obtain ⟨rfl, rfl⟩ : d₁ = d' ∧ message = a := by simpa using h
      rw [nextMessage_of_payload (next_extend_of_some hnext more), hread]
  | case4 d d₁ bytes hnext hread ih =>
      rw [nextMessage_of_payload hnext, hread] at h
      rw [nextMessage_of_payload (next_extend_of_some hnext more), hread]
      exact ih h

theorem nextMessage_extend_of_none {d d' : Decoder} (h : d.nextMessage read = (d', none))
    (more : List UInt8) :
    (d.extend more).nextMessage read = (d'.extend more).nextMessage read := by
  induction d using nextMessage.induct read with
  | case1 d d₁ hnext =>
      rw [nextMessage_of_none hnext] at h
      obtain ⟨rfl, -⟩ := Prod.mk.inj h
      rw [nextMessage, nextMessage, next_extend_of_none hnext more]
  | case2 d d₁ line hnext ih =>
      rw [nextMessage_of_malformed hnext] at h
      rw [nextMessage_of_malformed (next_extend_of_some hnext more)]
      exact ih h
  | case3 d d₁ bytes hnext message hread =>
      rw [nextMessage_of_payload hnext, hread] at h
      cases h
  | case4 d d₁ bytes hnext hread ih =>
      rw [nextMessage_of_payload hnext, hread] at h
      rw [nextMessage_of_payload (next_extend_of_some hnext more), hread]
      exact ih h

/-! ## All that a decoder holds -/

/-- A limit above the weight is no limit. -/
theorem takeAll_nextMessage {d : Decoder} {limit limit' : Nat} (h : d.weight < limit)
    (h' : d.weight < limit') :
    takeAll (nextMessage read) limit d = takeAll (nextMessage read) limit' d := by
  induction limit generalizing limit' d with
  | zero => omega
  | succ limit ih =>
      obtain ⟨limit', rfl⟩ : ∃ k, limit' = k + 1 := ⟨limit' - 1, by omega⟩
      rw [takeAll, takeAll]
      rcases hnext : d.nextMessage read with ⟨d', _ | a⟩
      · rfl
      · have hlt := nextMessage_weight_lt hnext
        simp only
        rw [ih (by omega) (show d'.weight < limit' by omega)]

/-- The messages in what a decoder holds, in order. -/
def messages (read : List UInt8 → Option α) (d : Decoder) : List α :=
  (takeAll (nextMessage read) (d.weight + 1) d).2

theorem messages_of_some {d d' : Decoder} {a : α} (h : d.nextMessage read = (d', some a)) :
    d.messages read = a :: d'.messages read := by
  have hlt := nextMessage_weight_lt h
  rw [messages, takeAll, h]
  simp only
  rw [takeAll_nextMessage hlt (Nat.lt_succ_self d'.weight)]
  rfl

theorem messages_of_none {d d' : Decoder} (h : d.nextMessage read = (d', none)) :
    d.messages read = [] := by
  rw [messages, takeAll, h]

/-- A message that comes out early is the first of those in the whole stream. -/
theorem messages_extend_of_some {d d' : Decoder} {a : α} (h : d.nextMessage read = (d', some a))
    (more : List UInt8) : (d.extend more).messages read = a :: (d'.extend more).messages read :=
  messages_of_some (nextMessage_extend_of_some h more)

/-- The messages show in what comes next. -/
theorem messages_congr {d e : Decoder} (h : d.nextMessage read = e.nextMessage read) :
    d.messages read = e.messages read := by
  rcases he : e.nextMessage read with ⟨e', _ | a⟩
  · rw [messages_of_none he, messages_of_none (h.trans he)]
  · rw [messages_of_some he, messages_of_some (h.trans he)]

/-- A decoder that waits loses none of the messages in the whole stream. -/
theorem messages_extend_of_none {d d' : Decoder} (h : d.nextMessage read = (d', none))
    (more : List UInt8) : (d.extend more).messages read = (d'.extend more).messages read :=
  messages_congr (nextMessage_extend_of_none h more)

/-- A decoder that waits waits again. -/
theorem nextMessage_of_waits {d d' : Decoder} (h : d.nextMessage read = (d', none)) :
    d'.nextMessage read = (d', none) := by
  have hagain := nextMessage_extend_of_none h []
  simp only [extend, List.append_nil] at hagain
  exact hagain.symm.trans h

/-- Asking more often than there are messages gets all of them, and then none. -/
theorem takeAll_of_messages_lt {d : Decoder} {limit : Nat} (h : (d.messages read).length < limit) :
    (takeAll (nextMessage read) limit d).2 = d.messages read ∧
      ((takeAll (nextMessage read) limit d).1.nextMessage read).2 = none := by
  induction limit generalizing d with
  | zero => exact absurd h (Nat.not_lt_zero _)
  | succ limit ih =>
      rw [takeAll]
      rcases hnext : d.nextMessage read with ⟨d', _ | a⟩
      · rw [messages_of_none hnext, nextMessage_of_waits hnext]
        exact ⟨rfl, rfl⟩
      · rw [messages_of_some hnext] at h ⊢
        obtain ⟨hothers, hnone⟩ := ih (Nat.lt_of_succ_lt_succ h)
        exact ⟨congrArg (a :: ·) hothers, hnone⟩

end

end Decoder

/-- The bytes of a stream of reads, up to the first failure. -/
def arriving : List Read → List UInt8
  | [] | .failed :: _ => []
  | .interrupted :: reads => arriving reads
  | .bytes bytes :: reads => bytes ++ arriving reads

/-- The messages that a stream of reads carries. -/
def carried {α : Type} (read : List UInt8 → Option α) (reads : List Read) : List α :=
  Decoder.messages read { buffer := arriving reads }

end ScriptDebugger.Wire
