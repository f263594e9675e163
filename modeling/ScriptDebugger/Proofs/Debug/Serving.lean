import ScriptDebugger.Proofs.Debug.Morphism
/-!
# Serving

An agent takes bytes as they come, serves what it can read of them, and may be left alone by the
front end in between. What it does is nevertheless one message after the other: which bytes came
together does not matter for anything that every message keeps.

## Main results

* `Serving.of_feed`, `Serving.of_serveReads` — what an agent does with bytes and with a stream of
  reads is to serve one message after the other.
* `lives_of_run` — so is its whole life.
* `Over.serving` — at its end, an agent serves nothing any more.
-/

namespace ScriptDebugger.Debug.Agent

open Wire (HostMessage DebuggerMessage)

/-- Serving leads an agent to another one, with what is sent on the way. -/
inductive Serving {σ : Type} [Engine σ] (fuel : Nat) :
    Agent σ → List DebuggerMessage → Agent σ → Prop
  /-- Nothing is served. -/
  | rest (a : Agent σ) : Serving fuel a [] a
  /-- Bytes come, or are decoded. -/
  | bytes {a b : Agent σ} {sent : List DebuggerMessage} (decoder : Wire.Decoder)
      (h : Serving fuel { a with decoder } sent b) : Serving fuel a sent b
  /-- A message is served, as long as the front end is there and the program has not ended. -/
  | message {a b d : Agent σ} {message : HostMessage} {sent more : List DebuggerMessage}
      (hphase : a.phase ≠ .finished) (hconnected : a.connected = true)
      (hreceive : a.receive fuel message = some (b, sent))
      (h : Serving fuel b more d) : Serving fuel a (sent ++ more) d
  /-- The front end goes away. -/
  | hangUp {a b d : Agent σ} {sent : List DebuggerMessage} (hhang : a.hangUp fuel = some b)
      (h : Serving fuel b sent d) : Serving fuel a sent d

/-- An agent that was started for a program has sent some messages, and is by then `a`. -/
def Lives {σ : Type} [Engine σ] (fuel : Nat) (engine : σ) (capacity : Option Nat)
    (sent : List DebuggerMessage) (a : Agent σ) : Prop :=
  ∃ more, sent = (start engine capacity).2 ++ more ∧
    Serving fuel (start engine capacity).1 more a

section

variable {σ : Type} [Engine σ] {a b d : Agent σ} {fuel : Nat} {sent more : List DebuggerMessage}

namespace Serving

theorem trans (h : Serving fuel a sent b) (h' : Serving fuel b more d) :
    Serving fuel a (sent ++ more) d := by
  induction h with
  | rest => exact h'
  | bytes decoder h ih => exact .bytes decoder (ih h')
  | message hphase hconnected hreceive h ih =>
      rw [List.append_assoc]
      exact .message hphase hconnected hreceive (ih h')
  | hangUp hhang h ih => exact .hangUp hhang (ih h')

theorem of_hangUp (hhang : a.hangUp fuel = some b) : Serving fuel a [] b :=
  .hangUp hhang (.rest b)

theorem of_serve {limit : Nat} (h : a.serve fuel limit = some (b, sent)) :
    Serving fuel a sent b := by
  induction limit generalizing a sent with
  | zero =>
      obtain ⟨rfl, rfl⟩ := Prod.mk.inj (Option.some.inj h)
      exact .rest a
  | succ limit ih =>
      by_cases hdone : a.phase = .finished ∨ (!a.connected) = true
      · rw [serve_of_done hdone] at h
        obtain ⟨rfl, rfl⟩ := Prod.mk.inj (Option.some.inj h)
        exact .rest a
      · rcases hnext : a.decoder.nextMessage HostMessage.decode? with ⟨decoder, _ | message⟩
        · rw [serve_of_none hdone hnext] at h
          obtain ⟨rfl, rfl⟩ := Prod.mk.inj (Option.some.inj h)
          exact .bytes decoder (.rest _)
        · rw [serve_of_some hdone hnext] at h
          obtain ⟨⟨first, answers⟩, hreceive, hrest⟩ := Option.bind_eq_some_iff.1 h
          obtain ⟨⟨last, others⟩, hlast, hsame⟩ := Option.map_eq_some_iff.1 hrest
          obtain ⟨rfl, rfl⟩ := Prod.mk.inj hsame
          obtain ⟨hphase, hgone⟩ := not_or.1 hdone
          have hconnected : a.connected = true := by simpa using hgone
          exact .bytes decoder (.message hphase hconnected hreceive (ih hlast))

theorem of_feed {bytes : List UInt8} (h : a.feed fuel bytes = some (b, sent)) :
    Serving fuel a sent b := by
  unfold feed at h
  obtain ⟨⟨next, answers⟩, hserve, hrest⟩ := Option.bind_eq_some_iff.1 h
  have hnext : Serving fuel a answers next := .bytes _ (of_serve hserve)
  dsimp only at hrest
  split at hrest
  · obtain ⟨rfl, rfl⟩ := Prod.mk.inj (Option.some.inj hrest)
    exact hnext
  · obtain ⟨last, hhang, hsame⟩ := Option.map_eq_some_iff.1 hrest
    obtain ⟨rfl, rfl⟩ := Prod.mk.inj hsame
    have hlast := hnext.trans (of_hangUp hhang)
    rwa [List.append_nil] at hlast

theorem of_serveReads {reads : List Wire.Read} (h : a.serveReads fuel reads = some (b, sent)) :
    Serving fuel a sent b := by
  have hgone {a : Agent σ} {sent : List DebuggerMessage}
      (h : (a.hangUp fuel).map (fun a => (a, [])) = some (b, sent)) : Serving fuel a sent b := by
    obtain ⟨last, hhang, hsame⟩ := Option.map_eq_some_iff.1 h
    obtain ⟨rfl, rfl⟩ := Prod.mk.inj hsame
    exact of_hangUp hhang
  induction reads generalizing a sent with
  | nil => exact hgone h
  | cons read reads ih =>
      cases read with
      | failed => exact hgone h
      | interrupted => exact ih h
      | bytes bytes =>
          obtain ⟨⟨next, answers⟩, hfeed, hrest⟩ := Option.bind_eq_some_iff.1 h
          obtain ⟨⟨last, others⟩, hlast, hsame⟩ := Option.bind_eq_some_iff.1 hrest
          obtain ⟨rfl, rfl⟩ := Prod.mk.inj (Option.some.inj hsame)
          exact (of_feed hfeed).trans (ih hlast)

end Serving

/-- A whole life of an agent. -/
theorem lives_of_run {engine : σ} {capacity : Option Nat} {reads : List Wire.Read}
    (h : run fuel engine capacity reads = some (a, sent)) : Lives fuel engine capacity sent a := by
  unfold run at h
  obtain ⟨⟨last, others⟩, hserve, hsame⟩ := Option.bind_eq_some_iff.1 h
  obtain ⟨rfl, rfl⟩ := Prod.mk.inj (Option.some.inj hsame)
  exact ⟨others, rfl, .of_serveReads hserve⟩

/-! ## The end -/

/-- An agent that has come to its end: there is no front end, and the program has ended. -/
structure Over (a : Agent σ) : Prop where
  phase : a.phase = .finished
  gone : a.connected = false

/-- When the front end goes away, the agent comes to its end. -/
theorem over_of_hangUp (h : a.hangUp fuel = some b) : b.Over := by
  unfold hangUp at h
  split at h
  · rename_i hphase
    obtain rfl := Option.some.inj h
    exact ⟨hphase, rfl⟩
  all_goals
    obtain ⟨-, -, rfl⟩ := Option.map_eq_some_iff.1 h
    exact ⟨rfl, rfl⟩

/-- At its end, an agent serves nothing any more. -/
theorem Over.serving (h : a.Over) (hserving : Serving fuel a sent b) :
    sent = [] ∧ b.Over ∧ b.engine = a.engine := by
  induction hserving with
  | rest => exact ⟨rfl, h, rfl⟩
  | bytes decoder hserving ih => exact ih ⟨h.phase, h.gone⟩
  | message hphase => exact absurd h.phase hphase
  | @hangUp a b d sent hhang hserving ih =>
      have hengine : b.engine = a.engine := by
        unfold hangUp at hhang
        simp only [h.phase] at hhang
        rw [← Option.some.inj hhang]
      rw [← hengine]
      exact ih (over_of_hangUp hhang)

end

end ScriptDebugger.Debug.Agent
