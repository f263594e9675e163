import ScriptDebugger.Proofs.Debug.CallerChain
import ScriptDebugger.Proofs.Debug.Pauses
/-!
# The stack of a paused machine

A machine looks its frames up by number, and says of each which frame stands below it. Frames are
numbered as they are called, so no two on the stack have the same number, and from the paused frame,
which is the running one, the callers lead through the whole stack.

## Main results

* `Control.Sound.descending` — numbers fall towards the bottom of the stack.
* `callerChain_below` — from a frame on the stack, the callers are the frames below it.
* `Reached.callerChain` — in a pause, the chain of callers is the stack.
-/

namespace ScriptDebugger

namespace Machine

namespace Control

theorem Nested.descending {p : Program} {above : ControlFrame} {below : List ControlFrame}
    (h : Nested p above below) :
    (above :: below).Pairwise fun upper lower => lower.id.number < upper.id.number := by
  induction below generalizing above with
  | nil => exact List.pairwise_singleton _ _
  | cons caller rest ih =>
      have hrest := ih h.2
      exact List.pairwise_cons.2 ⟨fun f hf => h.older hf, hrest⟩

/-- Numbers fall towards the bottom of the stack. -/
theorem Sound.descending {c : Control} (h : c.Sound) :
    c.stack.Pairwise fun upper lower => lower.id.number < upper.id.number := by
  cases hstack : c.stack with
  | nil => exact .nil
  | cons top below => exact (h.nested top below hstack).descending

end Control

namespace State

/-- A machine that is sound has one frame of each number. -/
theorem nodup_ids {s : State} (h : s.control.Sound) : (s.stack.map (·.id)).Nodup := by
  have hids : s.stack.map (·.id) = s.control.stack.map (·.id) := by
    rw [State.control, List.map_map]
    rfl
  rw [hids, List.Nodup, List.pairwise_map]
  refine h.descending.imp fun hlower hsame => ?_
  rw [hsame] at hlower
  exact Nat.lt_irrefl _ hlower

/-- What is seen of a frame does not depend on the frames above it. -/
theorem frameInfo?_append (p : Program) {frame : FrameId} {above : List Activation}
    (habove : ∀ a ∈ above, a.id ≠ frame) (rest : List Activation) :
    frameInfo? p frame (above ++ rest) = frameInfo? p frame rest := by
  induction above with
  | nil => rfl
  | cons a above ih =>
      obtain ⟨ha, hothers⟩ := List.forall_mem_cons.1 habove
      rw [List.cons_append, frameInfo?, if_neg ha, ih hothers]

end State

end Machine

namespace Debug

open Machine (Activation State)
open Context (CallerChain)

section

variable {s : State} {above below : List Activation} {a : Activation}

/-- A frame is seen with the part of the stack from it down. -/
theorem frame?_of_stack (hids : (s.stack.map (·.id)).Nodup) (hstack : s.stack = above ++ a :: below) :
    Engine.frame? s a.id = State.frameInfo? s.program a.id (a :: below) := by
  have habove : ∀ b ∈ above, b.id ≠ a.id := by
    rw [hstack, List.map_append, List.nodup_append] at hids
    exact fun b hb => hids.2.2 _ (List.mem_map_of_mem hb) _ List.mem_cons_self
  rw [← State.frameInfo?_append s.program habove, ← hstack]
  rfl

/-- From a frame on the stack, the callers are the frames below it. -/
theorem callerChain_below (hids : (s.stack.map (·.id)).Nodup)
    (hstack : s.stack = above ++ a :: below) :
    ∃ frames, CallerChain s a.id frames ∧ frames.map Prod.fst = (a :: below).map (·.id) := by
  have hframe := frame?_of_stack hids hstack
  rw [State.frameInfo?, if_pos rfl] at hframe
  induction below generalizing above a with
  | nil => exact ⟨_, .last hframe rfl, rfl⟩
  | cons caller rest ih =>
      have hcaller : s.stack = (above ++ [a]) ++ caller :: rest := by
        rw [hstack, List.append_assoc, List.singleton_append]
      have hframe' := frame?_of_stack hids hcaller
      rw [State.frameInfo?, if_pos rfl] at hframe'
      obtain ⟨frames, hbelow, hnumbers⟩ := ih hcaller hframe'
      exact ⟨_, .call hframe rfl hbelow, congrArg (a.id :: ·) hnumbers⟩

end

/-- In a pause that is reached, the callers of the paused frame are the machine's whole stack. -/
theorem Reached.callerChain {c : Context} {s : State} (h : Reached c s) {paused : FrameId}
    (hpaused : c.stepper.paused = some paused) :
    ∃ frames, CallerChain s paused frames ∧ frames.map Prod.fst = s.stack.map (·.id) := by
  have hids := State.nodup_ids h.steady.onTrace.sound
  obtain ⟨-, -, top, below, hstack, rfl, -⟩ := h.steady.paused paused hpaused
  have hwhole : s.stack = [] ++ top :: below := hstack
  obtain ⟨frames, hchain, hnumbers⟩ := callerChain_below hids hwhole
  exact ⟨frames, hchain, by rw [hnumbers, hstack]⟩

end Debug

end ScriptDebugger
