import ScriptDebugger.Debug.Agent
/-!
# Engines that look the same

A map between the states of two engines is a morphism when every operation of the interface answers
the same on both sides. The debugger sees an engine through that interface only, so what it does
with the one it does with the other: the same stops, the same messages, the same end.

An engine can therefore be given a memory of what it did — the instructions that it executed, say —
without a change in what the debugger makes of it.

## Main results

* `Morphism.runWithin` — a run from stop to stop.
* `Morphism.run` — a whole life of an agent.
-/

namespace ScriptDebugger.Debug

/-- `f` keeps every answer of the engine interface. -/
structure Morphism {σ τ : Type} [Engine σ] [Engine τ] (f : σ → τ) : Prop where
  advance : ∀ hooks s,
    Engine.advance hooks (f s) = (f (Engine.advance hooks s).1, (Engine.advance hooks s).2)
  topUnits : ∀ s, Engine.topUnits (f s) = Engine.topUnits s
  unitInfo? : ∀ s, Engine.unitInfo? (f s) = Engine.unitInfo? s
  childUnits : ∀ s, Engine.childUnits (f s) = Engine.childUnits s
  unitCount : ∀ s, Engine.unitCount (f s) = Engine.unitCount s
  breakpointOffsets : ∀ s, Engine.breakpointOffsets (f s) = Engine.breakpointOffsets s
  location? : ∀ s, Engine.location? (f s) = Engine.location? s
  setBreakpoint : ∀ s unit offset,
    Engine.setBreakpoint (f s) unit offset = f (Engine.setBreakpoint s unit offset)
  clearBreakpoint : ∀ s unit offset,
    Engine.clearBreakpoint (f s) unit offset = f (Engine.clearBreakpoint s unit offset)
  frame? : ∀ s, Engine.frame? (f s) = Engine.frame? s
  bindingNames : ∀ s, Engine.bindingNames (f s) = Engine.bindingNames s
  binding? : ∀ s, Engine.binding? (f s) = Engine.binding? s
  setBinding : ∀ s frame name value,
    Engine.setBinding (f s) frame name value = (Engine.setBinding s frame name value).map f
  globalObject : ∀ s, Engine.globalObject (f s) = Engine.globalObject s
  objectClass? : ∀ s, Engine.objectClass? (f s) = Engine.objectClass? s
  propertyNames : ∀ s, Engine.propertyNames (f s) = Engine.propertyNames s
  property? : ∀ s, Engine.property? (f s) = Engine.property? s
  setProperty : ∀ s id name value,
    Engine.setProperty (f s) id name value = (Engine.setProperty s id name value).map f
  importValue : ∀ s json,
    Engine.importValue (f s) json = (f (Engine.importValue s json).1, (Engine.importValue s json).2)
  selectProgram : ∀ s url, Engine.selectProgram (f s) url = f (Engine.selectProgram s url)

namespace Morphism

open Wire (DebuggerMessage HostMessage)

variable {σ τ : Type} [Engine σ] [Engine τ] {f : σ → τ}

/-! ## Breakpoints and stepping -/

theorem registerAll (h : Morphism f) (b : Breakpoints) (s : σ) :
    b.registerAll (f s) = b.registerAll s := by
  have hunit : Breakpoints.registerUnit (f s) = Breakpoints.registerUnit s := by
    funext b unit
    simp only [Breakpoints.registerUnit, h.unitInfo?]
  simp only [Breakpoints.registerAll, h.topUnits, hunit]

theorem candidatesIn (h : Morphism f) (s : σ) (line column depth : Nat) :
    Breakpoints.candidatesIn (f s) line column depth =
      Breakpoints.candidatesIn s line column depth := by
  induction depth with
  | zero => rfl
  | succ depth ih =>
      funext unit
      simp only [Breakpoints.candidatesIn, Breakpoints.candidatesOf, h.breakpointOffsets,
        h.location?, h.childUnits, ih]

theorem candidates (h : Morphism f) (b : Breakpoints) (s : σ) :
    b.candidates (f s) = b.candidates s := by
  funext path line column
  simp only [Breakpoints.candidates, h.unitCount, h.candidatesIn]

theorem set (h : Morphism f) (b : Breakpoints) (s : σ) (path : String) (line column : Nat) :
    b.set (f s) path line column =
      ((b.set s path line column).1, f (b.set s path line column).2.1,
        (b.set s path line column).2.2) := by
  simp only [Breakpoints.set, Breakpoints.resolve, h.candidates, h.setBreakpoint]
  split
  · rfl
  · split <;> rfl

theorem remove (h : Morphism f) (b : Breakpoints) (s : σ) (id : Int) :
    b.remove (f s) id = ((b.remove s id).1, f (b.remove s id).2.1, (b.remove s id).2.2) := by
  simp only [Breakpoints.remove, h.clearBreakpoint]
  split <;> rfl

theorem locationOf (h : Morphism f) (s : σ) (frame : FrameId) :
    Debug.locationOf (f s) frame = Debug.locationOf s frame := by
  simp only [Debug.locationOf, h.frame?, h.location?]

theorem stepperEvent (h : Morphism f) (stepper : Stepper) (s : σ) (event : Event) :
    stepper.onEvent (f s) event = stepper.onEvent s event := by
  cases event with
  | finished => rfl
  | enterFrame frame => simp only [Stepper.onEvent, Stepper.pause, h.locationOf]
  | step frame => simp only [Stepper.onEvent, Stepper.pause, h.locationOf]
  | pop frame => simp only [Stepper.onEvent, Stepper.leave, h.frame?]
  | breakpoint frame offset => simp only [Stepper.onEvent, Stepper.pause, h.locationOf]

theorem onEvent (h : Morphism f) (c : Context) (s : σ) (event : Event) :
    c.onEvent (f s) event = c.onEvent s event := by
  simp only [Context.onEvent, h.stepperEvent, h.frame?, h.globalObject, h.registerAll]

/-- The run to the next stop. -/
theorem runWithin (h : Morphism f) (fuel : Nat) (c : Context) (s : σ) :
    c.runWithin fuel (f s) =
      (c.runWithin fuel s).map fun (c, s, stop) => (c, f s, stop) := by
  induction fuel generalizing c s with
  | zero => rfl
  | succ fuel ih =>
      simp only [Context.runWithin, h.advance]
      rcases Engine.advance c.hooks s with ⟨next, _ | event⟩
      · exact ih c next
      · cases event with
        | finished => rfl
        | _ =>
            simp only [h.onEvent]
            split
            · rfl
            · exact ih _ next

/-! ## Questions -/

theorem callerAt (h : Morphism f) (s : σ) (steps : Nat) (frame : FrameId) :
    Context.callerAt (f s) steps frame = Context.callerAt s steps frame := by
  induction steps generalizing frame with
  | zero => rfl
  | succ steps ih =>
      simp only [Context.callerAt, h.frame?]
      congr 1
      funext caller
      exact ih caller

theorem findFrame (h : Morphism f) (c : Context) (s : σ) (index : Nat) :
    c.findFrame (f s) index = c.findFrame s index := by
  simp only [Context.findFrame, h.callerAt]

theorem framesFrom (h : Morphism f) (s : σ) (id count : Nat) (frame : FrameId) :
    Context.framesFrom (f s) id count frame = Context.framesFrom s id count frame := by
  induction count generalizing id frame with
  | zero => rfl
  | succ count ih =>
      simp only [Context.framesFrom, Context.showFrame, h.frame?, h.location?, h.unitInfo?, ih]

theorem stack (h : Morphism f) (c : Context) (s : σ) (index count : Nat) :
    c.stack (f s) index count = c.stack s index count := by
  simp only [Context.stack, h.findFrame, h.framesFrom]

theorem scopes (h : Morphism f) (c : Context) (s : σ) (index : Nat) :
    c.scopes (f s) index = c.scopes s index := by
  simp only [Context.scopes, h.findFrame, h.frame?, h.unitInfo?]

theorem describe (h : Morphism f) (s : σ) (handles : Handles) (name : String) (value : Value) :
    Context.describe (f s) handles name value = Context.describe s handles name value := by
  cases value <;> simp only [Context.describe, Context.describeValue, h.objectClass?]

theorem describeAll (h : Morphism f) (s : σ) (handles : Handles)
    (entries : List (String × Value)) :
    Context.describeAll (f s) handles entries = Context.describeAll s handles entries := by
  induction entries generalizing handles with
  | nil => rfl
  | cons entry rest ih => simp only [Context.describeAll, h.describe, ih]

theorem frameEntries (h : Morphism f) (s : σ) :
    Context.frameEntries (f s) = Context.frameEntries s := by
  funext frame
  simp only [Context.frameEntries, h.bindingNames, h.binding?, h.frame?]

theorem objectEntries (h : Morphism f) (s : σ) :
    Context.objectEntries (f s) = Context.objectEntries s := by
  funext id
  simp only [Context.objectEntries, h.propertyNames, h.property?]

theorem variablesBehind (h : Morphism f) (c : Context) (s : σ) (reference : Nat) :
    c.variablesBehind (f s) reference = c.variablesBehind s reference := by
  simp only [Context.variablesBehind, h.findFrame, h.frameEntries, h.objectEntries, h.describeAll]

theorem setVariable (h : Morphism f) (c : Context) (s : σ) (reference : Nat) (name : String)
    (value : Json) :
    c.setVariable (f s) reference name value =
      (f (c.setVariable s reference name value).1, (c.setVariable s reference name value).2) := by
  simp only [Context.setVariable, h.findFrame, h.importValue, h.setProperty, h.setBinding]
  split
  · rfl
  · rcases Engine.setProperty (Engine.importValue s value).1 _ name (Engine.importValue s value).2
      with e | next
    · rfl
    · simp only [Except.map, Context.readProperty, h.property?, h.describe]
  · split
    · rfl
    · rcases Engine.setBinding (Engine.importValue s value).1 _ name (Engine.importValue s value).2
        with e | next
      · rfl
      · simp only [Except.map, Context.readBinding, h.binding?, h.describe]

end Morphism

/-! ## The agent -/

namespace Agent

variable {σ τ : Type}

/-- The agent with the engine that corresponds to its own. -/
def withEngine (f : σ → τ) (a : Agent σ) : Agent τ :=
  { engine := f a.engine, context := a.context, decoder := a.decoder, phase := a.phase,
    connected := a.connected, capacity := a.capacity }

theorem send_withEngine (f : σ → τ) (a : Agent σ) (message : Wire.DebuggerMessage) :
    (a.withEngine f).send message = ((a.send message).1.withEngine f, (a.send message).2) := by
  obtain ⟨engine, context, decoder, phase, connected, capacity⟩ := a
  cases connected with
  | false => rfl
  | true => rcases capacity with _ | _ | n <;> rfl

theorem leave_withEngine (f : σ → τ) (a : Agent σ) (mode : RunMode) :
    (a.withEngine f).leave mode = (a.leave mode).withEngine f := by
  obtain ⟨engine, context, decoder, phase, connected, capacity⟩ := a
  cases phase <;> rfl

section

variable [Engine σ] {fuel limit : Nat} {a : Agent σ} {d : Wire.Decoder}

/-- Nothing is served behind the end of the program or of the link. -/
theorem serve_of_done (hdone : a.phase = .finished ∨ (!a.connected) = true) :
    a.serve fuel (limit + 1) = some (a, []) := by
  rw [serve, if_pos hdone]

theorem serve_of_none (hopen : ¬(a.phase = .finished ∨ (!a.connected) = true))
    (hnext : a.decoder.nextMessage Wire.HostMessage.decode? = (d, none)) :
    a.serve fuel (limit + 1) = some ({ a with decoder := d }, []) := by
  rw [serve, if_neg hopen, hnext]

theorem serve_of_some {message : Wire.HostMessage}
    (hopen : ¬(a.phase = .finished ∨ (!a.connected) = true))
    (hnext : a.decoder.nextMessage Wire.HostMessage.decode? = (d, some message)) :
    a.serve fuel (limit + 1) =
      (receive fuel { a with decoder := d } message).bind fun r =>
        (r.1.serve fuel limit).map fun r' => (r'.1, r.2 ++ r'.2) := by
  rw [serve, if_neg hopen, hnext]
  simp only [Option.bind_eq_bind, Option.map_eq_bind, Function.comp_def]

end

end Agent

namespace Morphism

open Wire (DebuggerMessage HostMessage)

variable {σ τ : Type} [Engine σ] [Engine τ] {f : σ → τ}

theorem perform (h : Morphism f) (c : Context) (s : σ) (message : HostMessage) :
    Agent.perform c (f s) message =
      ((Agent.perform c s message).1, f (Agent.perform c s message).2.1,
        (Agent.perform c s message).2.2) := by
  cases message with
  | loadProgram path => simp only [Agent.perform, h.selectProgram]
  | getBreakpointsForLine path line column => simp only [Agent.perform, h.candidates]
  | setBreakpoint path line column => simp only [Agent.perform, h.set]
  | removeBreakpoint id => simp only [Agent.perform, h.remove]
  | getStack index count => simp only [Agent.perform, h.stack]
  | getScopes frameId => simp only [Agent.perform, h.scopes]
  | getVariables reference =>
      simp only [Agent.perform, h.variablesBehind]
      split <;> rfl
  | setVariable reference name value =>
      simp only [Agent.perform, h.setVariable]
      rcases c.setVariable s reference name value with ⟨next, _ | _⟩ <;> rfl
  | _ => rfl

theorem announcement (h : Morphism f) (c : Context) (s : σ) (stop : Stop) :
    Agent.announcement c (f s) stop = Agent.announcement c s stop := by
  simp only [Agent.announcement, Context.breakpointId, h.frame?, h.unitInfo?]

theorem go (h : Morphism f) (fuel : Nat) (a : Agent σ) (mode : RunMode) :
    (a.withEngine f).go fuel mode =
      (a.go fuel mode).map fun r => (r.1.withEngine f, r.2) := by
  simp only [Agent.go, Agent.leave_withEngine]
  generalize a.leave mode = b
  have hrun := h.runWithin fuel b.context b.engine
  rw [show (b.withEngine f).context = b.context from rfl,
    show (b.withEngine f).engine = f b.engine from rfl, hrun]
  rcases b.context.runWithin fuel b.engine with _ | ⟨c, s, _ | stop⟩
  · rfl
  · rfl
  · simp only [Option.map_some, h.announcement]
    exact congrArg some
      (Agent.send_withEngine f { b with context := c, engine := s, phase := .paused } _)

theorem receive (h : Morphism f) (fuel : Nat) (a : Agent σ) (message : HostMessage) :
    (a.withEngine f).receive fuel message =
      (a.receive fuel message).map fun r => (r.1.withEngine f, r.2) := by
  have hperform := h.perform a.context a.engine message
  simp only [Agent.receive]
  rw [show (a.withEngine f).context = a.context from rfl,
    show (a.withEngine f).engine = f a.engine from rfl, hperform]
  rcases Agent.perform a.context a.engine message with ⟨c, s, reply, _ | mode⟩
  · cases reply with
    | none => rfl
    | some reply =>
        exact congrArg some (Agent.send_withEngine f { a with context := c, engine := s } reply)
  · exact h.go fuel { a with context := c, engine := s } mode

theorem serve (h : Morphism f) (fuel limit : Nat) (a : Agent σ) :
    (a.withEngine f).serve fuel limit =
      (a.serve fuel limit).map fun r => (r.1.withEngine f, r.2) := by
  induction limit generalizing a with
  | zero => rfl
  | succ limit ih =>
      by_cases hdone : a.phase = .finished ∨ (!a.connected) = true
      · rw [Agent.serve_of_done hdone, Agent.serve_of_done (a := a.withEngine f) hdone]
        rfl
      · rcases hnext : a.decoder.nextMessage HostMessage.decode? with ⟨d, _ | message⟩
        · rw [Agent.serve_of_none hdone hnext,
            Agent.serve_of_none (a := a.withEngine f) hdone hnext]
          rfl
        · have hreceive := h.receive fuel { a with decoder := d } message
          rw [Agent.serve_of_some hdone hnext,
            Agent.serve_of_some (a := a.withEngine f) hdone hnext]
          change (Agent.receive fuel (Agent.withEngine f { a with decoder := d }) message).bind _
            = _
          rw [hreceive]
          rcases Agent.receive fuel { a with decoder := d } message with _ | ⟨b, sent⟩
          · rfl
          · simp only [Option.map_some, Option.bind_some, ih b]
            rcases b.serve fuel limit with _ | ⟨b', more⟩ <;> rfl

theorem runToEnd (h : Morphism f) (fuel : Nat) (c : Context) (s : σ) :
    Agent.runToEnd fuel c (f s) = (Agent.runToEnd fuel c s).map fun r => (r.1, f r.2) := by
  induction fuel generalizing c s with
  | zero => rfl
  | succ fuel ih =>
      simp only [Agent.runToEnd, h.advance]
      rcases Engine.advance c.hooks s with ⟨next, _ | event⟩
      · exact ih c next
      · cases event with
        | finished => rfl
        | _ =>
            simp only [h.onEvent]
            split <;> exact ih _ next

theorem hangUp (h : Morphism f) (fuel : Nat) (a : Agent σ) :
    (a.withEngine f).hangUp fuel = (a.hangUp fuel).map (Agent.withEngine f) := by
  have hrun := h.runToEnd fuel (a.leave .run).context a.engine
  simp only [Agent.hangUp, Agent.leave_withEngine]
  rw [show (a.withEngine f).phase = a.phase from rfl,
    show ((a.leave .run).withEngine f).context = (a.leave .run).context from rfl,
    show (a.withEngine f).engine = f a.engine from rfl, hrun]
  cases hphase : a.phase with
  | finished => simp only [Option.map_some, Agent.withEngine, hphase]
  | _ => rcases Agent.runToEnd fuel (a.leave .run).context a.engine with _ | ⟨c, s⟩ <;> rfl

theorem feed (h : Morphism f) (fuel : Nat) (a : Agent σ) (bytes : List UInt8) :
    (a.withEngine f).feed fuel bytes =
      (a.feed fuel bytes).map fun r => (r.1.withEngine f, r.2) := by
  have hserve := h.serve fuel ((a.decoder.extend bytes).weight + 1)
    { a with decoder := a.decoder.extend bytes }
  simp only [Agent.feed]
  rw [show ({ a.withEngine f with decoder := (a.withEngine f).decoder.extend bytes } : Agent τ) =
      Agent.withEngine f { a with decoder := a.decoder.extend bytes } from rfl,
    show (a.withEngine f).decoder = a.decoder from rfl, hserve]
  rcases Agent.serve fuel ((a.decoder.extend bytes).weight + 1)
    { a with decoder := a.decoder.extend bytes } with _ | ⟨b, sent⟩
  · rfl
  · simp only [Option.map_some, Option.bind_eq_bind, Option.bind_some]
    rw [show (b.withEngine f).connected = b.connected from rfl]
    split
    · rfl
    · rw [h.hangUp]
      rcases b.hangUp fuel with _ | b' <;> rfl

theorem serveReads (h : Morphism f) (fuel : Nat) (a : Agent σ) (reads : List Wire.Read) :
    (a.withEngine f).serveReads fuel reads =
      (a.serveReads fuel reads).map fun r => (r.1.withEngine f, r.2) := by
  induction reads generalizing a with
  | nil =>
      simp only [Agent.serveReads, h.hangUp]
      rcases a.hangUp fuel with _ | b <;> rfl
  | cons read reads ih =>
      cases read with
      | failed =>
          simp only [Agent.serveReads, h.hangUp]
          rcases a.hangUp fuel with _ | b <;> rfl
      | interrupted => exact ih a
      | bytes bytes =>
          simp only [Agent.serveReads, h.feed]
          rcases a.feed fuel bytes with _ | ⟨b, sent⟩
          · rfl
          · simp only [Option.map_some, Option.bind_eq_bind, Option.bind_some, ih b]
            rcases b.serveReads fuel reads with _ | ⟨b', more⟩ <;> rfl

/-- A whole life of an agent: the front end gets the same messages, and the engines correspond at
the end. -/
theorem run (h : Morphism f) (fuel : Nat) (s : σ) (capacity : Option Nat)
    (reads : List Wire.Read) :
    Agent.run fuel (f s) capacity reads =
      (Agent.run fuel s capacity reads).map fun r => (r.1.withEngine f, r.2) := by
  have hstart : Agent.start (f s) capacity =
      ((Agent.start s capacity).1.withEngine f, (Agent.start s capacity).2) :=
    Agent.send_withEngine f
      { engine := s, context := .initial, decoder := {}, phase := .greeting, connected := true,
        capacity } .connect
  simp only [Agent.run, hstart, h.serveReads]
  rcases (Agent.start s capacity).1.serveReads fuel reads with _ | ⟨a, sent⟩ <;> rfl

end Morphism

end ScriptDebugger.Debug
