import Mathlib.Data.List.Forall2
import ScriptDebugger.Engine.Snapshot
import ScriptDebugger.Proofs.Debug.References
/-!
# Frames, scopes and variables

While a program is paused, frames are named by how many callers they stand below the paused one.
Three questions count callers, each in its own way: the frames of the stack are collected along the
callers, the scopes of a frame are given out with a reference computed from its number, and the
variables behind such a reference are those of the frame that the number is decoded to. Where the
callers come to an end, the three speak of the same frames.

The engine may be any engine, and a caller may be the frame below on the stack or a saved one.

## Main results

* `CallerChain.callerAt`, `CallerChain.drop` — counting callers finds the frames of the chain.
* `stack_eq`, `scopes_eq`, `variablesBehind_frame` — the three questions on a chain.
* `frames_scopes_variables_agree` — they speak of the same frames.
-/

namespace ScriptDebugger.Debug

open Wire (StackFrame Scope Variable)

namespace Context

variable {σ : Type} [Engine σ]

/-- The frames from one along the callers, down to a frame without a caller. All of them resolve. -/
inductive CallerChain (engine : σ) : FrameId → List (FrameId × FrameInfo) → Prop
  | last {frame : FrameId} {info : FrameInfo} (hframe : Engine.frame? engine frame = some info)
    (hcaller : info.caller = none) : CallerChain engine frame [(frame, info)]
  | call {frame caller : FrameId} {info : FrameInfo} {below : List (FrameId × FrameInfo)}
    (hframe : Engine.frame? engine frame = some info) (hcaller : info.caller = some caller)
    (hbelow : CallerChain engine caller below) :
    CallerChain engine frame ((frame, info) :: below)

/-- How frames are shown that stand one below the other, the first one under the number `id`. -/
def showFrames (engine : σ) (id : Nat) (frames : List (FrameId × FrameInfo)) : List StackFrame :=
  frames.mapIdx fun k entry => showFrame engine (id + k) entry.2

theorem showFrames_cons (engine : σ) (id : Nat) (entry : FrameId × FrameInfo)
    (frames : List (FrameId × FrameInfo)) :
    showFrames engine id (entry :: frames) =
      showFrame engine id entry.2 :: showFrames engine (id + 1) frames := by
  simp only [showFrames, List.mapIdx_cons, Nat.add_zero, List.cons.injEq, true_and]
  congr 1
  funext k entry
  rw [Nat.add_right_comm, Nat.add_assoc]

theorem length_showFrames (engine : σ) (id : Nat) (frames : List (FrameId × FrameInfo)) :
    (showFrames engine id frames).length = frames.length :=
  List.length_mapIdx

theorem getElem?_showFrames (engine : σ) (id k : Nat) (frames : List (FrameId × FrameInfo)) :
    (showFrames engine id frames)[k]? =
      frames[k]?.map fun entry => showFrame engine (id + k) entry.2 :=
  List.getElem?_mapIdx

/-- Frames that stand further below are shown under the numbers that follow. -/
theorem drop_showFrames (engine : σ) (id i : Nat) (frames : List (FrameId × FrameInfo)) :
    (showFrames engine id frames).drop i = showFrames engine (id + i) (frames.drop i) := by
  apply List.ext_getElem?
  intro k
  rw [List.getElem?_drop, getElem?_showFrames, getElem?_showFrames, List.getElem?_drop,
    Nat.add_assoc]

namespace CallerChain

variable {engine : σ} {frame : FrameId} {frames : List (FrameId × FrameInfo)}

theorem length_pos (h : CallerChain engine frame frames) : 0 < frames.length := by
  cases h with
  | last => exact Nat.one_pos
  | call => exact Nat.succ_pos _

/-- The frames of a chain resolve. -/
theorem frame?_of_mem (h : CallerChain engine frame frames) {entry : FrameId × FrameInfo}
    (hmem : entry ∈ frames) : Engine.frame? engine entry.1 = some entry.2 := by
  induction h with
  | last hframe =>
      obtain rfl := List.mem_singleton.1 hmem
      exact hframe
  | call hframe _ _ ih =>
      rcases List.mem_cons.1 hmem with rfl | hmem
      · exact hframe
      · exact ih hmem

/-- Counting callers finds the frames of the chain, and nothing behind its end. -/
theorem callerAt (h : CallerChain engine frame frames) (steps : Nat) :
    callerAt engine steps frame = frames[steps]?.map Prod.fst := by
  induction h generalizing steps with
  | last hframe hcaller =>
      cases steps with
      | zero => rfl
      | succ steps => simp [Context.callerAt, hframe, hcaller]
  | call hframe hcaller _ ih =>
      cases steps with
      | zero => rfl
      | succ steps => simp [Context.callerAt, hframe, hcaller, ih]

/-- From each of its frames down, a chain is a chain. -/
theorem drop (h : CallerChain engine frame frames) {i : Nat} {entry : FrameId × FrameInfo}
    (hentry : frames[i]? = some entry) : CallerChain engine entry.1 (frames.drop i) := by
  induction h generalizing i with
  | last hframe hcaller =>
      cases i with
      | zero =>
          obtain rfl := Option.some.inj hentry
          exact .last hframe hcaller
      | succ i => simp at hentry
  | call hframe hcaller hbelow ih =>
      cases i with
      | zero =>
          obtain rfl := Option.some.inj hentry
          exact .call hframe hcaller hbelow
      | succ i =>
          rw [List.getElem?_cons_succ] at hentry
          exact ih hentry

/-- Collecting frames along the callers gives the first frames of the chain. -/
theorem framesFrom (h : CallerChain engine frame frames) (id count : Nat) :
    framesFrom engine id count frame = .ok ((showFrames engine id frames).take count) := by
  induction h generalizing id count with
  | last hframe hcaller =>
      cases count with
      | zero => rfl
      | succ count =>
          simp only [Context.framesFrom, hframe, hcaller]
          rw [showFrames_cons, List.take_succ_cons]
          simp [showFrames]
  | call hframe hcaller _ ih =>
      cases count with
      | zero => rfl
      | succ count =>
          simp only [Context.framesFrom, hframe, hcaller, ih]
          rw [showFrames_cons, List.take_succ_cons]
          rfl

end CallerChain

/-! ## The questions -/

variable {engine : σ} {c : Context} {paused : FrameId} {frames : List (FrameId × FrameInfo)}

/-- Each frame of the chain below the paused frame is found under its place, and no other is. -/
theorem findFrame_eq (hpaused : c.stepper.paused = some paused)
    (hchain : CallerChain engine paused frames) (index : Nat) :
    c.findFrame engine index =
      match frames[index]? with
      | some entry => .ok entry.1
      | none => .error (.frameNotFound index) := by
  have hcurrent : c.currentFrame = .ok paused := by rw [currentFrame, hpaused]
  rw [findFrame, hcurrent]
  simp only [bind, Except.bind, hchain.callerAt]
  cases frames[index]? with
  | none => rfl
  | some entry => rfl

theorem stack_eq (hpaused : c.stepper.paused = some paused)
    (hchain : CallerChain engine paused frames) (index count : Nat) :
    c.stack engine index count =
      if index < frames.length then
        .ok (((showFrames engine 0 frames).drop index).take count)
      else .error (.frameNotFound index) := by
  rw [stack, findFrame_eq hpaused hchain]
  by_cases hindex : index < frames.length
  · have hentry : frames[index]? = some frames[index] := List.getElem?_eq_getElem hindex
    rw [hentry, if_pos hindex, drop_showFrames, Nat.zero_add]
    exact (hchain.drop hentry).framesFrom index count
  · have hnone : frames[index]? = none := List.getElem?_eq_none (Nat.le_of_not_lt hindex)
    rw [hnone, if_neg hindex]
    rfl

/-- The scope of the bindings of a frame: it is shown where the code unit of the frame stands, if
the frame has one. -/
def localsOf (engine : σ) (reference : Nat) (info : FrameInfo) : Scope :=
  let code := info.unit.bind (Engine.unitInfo? engine)
  { name := "Locals", presentationHint := "locals", variablesReference := reference
    expensive := false
    source := code.map (·.url)
    line := code.map (·.start.line)
    column := code.map (·.start.column)
    endLine := code.map fun i => i.start.line + i.lineCount }

/-- The scope of the globals. -/
def globals : Scope :=
  { name := "Globals", presentationHint := "globals", variablesReference := globalReference
    expensive := true, source := none, line := none, column := none, endLine := none }

theorem scopes_eq (hpaused : c.stepper.paused = some paused)
    (hchain : CallerChain engine paused frames) (index : Nat) :
    c.scopes engine index =
      match frames[index]? with
      | none => .error (.frameNotFound index)
      | some entry =>
        if index < maxFrames then .ok [localsOf engine (index + 1) entry.2, globals]
        else .error (.frameIndexOutOfRange index) := by
  rw [scopes, findFrame_eq hpaused hchain]
  cases hentry : frames[index]? with
  | none => rfl
  | some entry =>
      have hframe := hchain.frame?_of_mem (List.mem_of_getElem? hentry)
      by_cases hindex : index < maxFrames
      · simp only [bind, Except.bind, Handles.frameHandle, if_pos hindex, hframe, Option.bind_some]
        rfl
      · simp only [bind, Except.bind, Handles.frameHandle, if_neg hindex]

/-- The bindings of a frame with their contents, in order. -/
def bindingsOf (engine : σ) (frame : FrameId) : List (String × Value) :=
  (Engine.bindingNames engine frame).map fun name =>
    (name, (Engine.binding? engine frame name).getD .undefined)

/-- The object that a frame works for, if it counts as true. -/
def thisOf (info : FrameInfo) : List (String × Value) :=
  (info.this.filter Value.isTruthy).toList.map fun this => ("<this>", this)

theorem frameEntries_eq {frame : FrameId} {info : FrameInfo}
    (hframe : Engine.frame? engine frame = some info) :
    frameEntries engine frame = bindingsOf engine frame ++ thisOf info := by
  rw [frameEntries, hframe, Option.bind_some, ← bindingsOf, thisOf]
  cases info.this with
  | none => simp
  | some this =>
      by_cases htruthy : this.isTruthy
      · simp [Option.filter, htruthy]
      · simp [Option.filter, htruthy]

theorem describe_name (handles : Handles) (name : String) (value : Value) :
    (describe engine handles name value).2.name = name := rfl

/-- Each variable is listed under the name of its entry and as its value is shown with the
references that the listing leaves. -/
def Lists (engine : σ) (handles : Handles) (entries : List (String × Value))
    (items : List Variable) : Prop :=
  List.Forall₂
    (fun entry item =>
      item.name = entry.1 ∧ describe engine handles entry.1 entry.2 = (handles, item))
    entries items

theorem lists_describeAll (engine : σ) (handles : Handles) (entries : List (String × Value)) :
    Lists engine (describeAll engine handles entries).1 entries
      (describeAll engine handles entries).2 := by
  induction entries generalizing handles with
  | nil => exact .nil
  | cons entry rest ih =>
      obtain ⟨name, value⟩ := entry
      have hagain := describe_again engine
        (extends_describeAll engine (describe engine handles name value).1 rest)
      exact .cons ⟨describe_name handles name value, hagain⟩ (ih _)

/-- The reference of a frame means its bindings. -/
theorem variablesBehind_frame (hpaused : c.stepper.paused = some paused)
    (hchain : CallerChain engine paused frames) {index : Nat} {entry : FrameId × FrameInfo}
    (hentry : frames[index]? = some entry) (hindex : index < maxFrames) :
    ∃ c' items, c.variablesBehind engine (index + 1) = .ok (c', items) ∧
      Lists engine c'.handles (bindingsOf engine entry.1 ++ thisOf entry.2) items := by
  have hresolve : c.handles.resolve (index + 1) = some (.frame index) := by
    rw [Handles.resolve, if_neg (Nat.succ_ne_zero index), if_pos (Nat.succ_le_of_lt hindex),
      Nat.add_sub_cancel]
  have htarget : c.target (index + 1) = .ok (.frame index) := by
    rw [target_eq, hpaused, hresolve]
  have hframe := hchain.frame?_of_mem (List.mem_of_getElem? hentry)
  have hentries : c.entriesBehind engine (index + 1) =
      .ok (bindingsOf engine entry.1 ++ thisOf entry.2) := by
    rw [entriesBehind, htarget, ← frameEntries_eq hframe]
    simp only [findFrame_eq hpaused hchain, hentry]
    rfl
  rw [variablesBehind_eq, hentries]
  exact ⟨_, _, rfl, lists_describeAll engine c.handles _⟩

/-! ## Agreement -/

theorem stack_error_iff (hpaused : c.stepper.paused = some paused)
    (hchain : CallerChain engine paused frames) (index count : Nat) (e : QueryError) :
    c.stack engine index count = .error e ↔ e = .frameNotFound index ∧ frames.length ≤ index := by
  rw [stack_eq hpaused hchain]
  by_cases hindex : index < frames.length
  · rw [if_pos hindex]
    exact iff_of_false nofun fun hmissing => Nat.not_le_of_lt hindex hmissing.2
  · rw [if_neg hindex, Except.error.injEq]
    exact ⟨fun h => ⟨h.symm, Nat.le_of_not_lt hindex⟩, fun h => h.1.symm⟩

/-- Frames that are asked for in two parts. -/
theorem stack_append (hpaused : c.stepper.paused = some paused)
    (hchain : CallerChain engine paused frames) {index first : Nat} (second : Nat)
    (hlast : index + first < frames.length) :
    ∃ upper lower, c.stack engine index first = .ok upper ∧
      c.stack engine (index + first) second = .ok lower ∧
      c.stack engine index (first + second) = .ok (upper ++ lower) := by
  have hindex : index < frames.length := by omega
  have hupper := stack_eq hpaused hchain index first
  have hlower := stack_eq hpaused hchain (index + first) second
  have hboth := stack_eq hpaused hchain index (first + second)
  rw [if_pos hindex] at hupper hboth
  rw [if_pos hlast] at hlower
  rw [List.take_add, List.drop_drop] at hboth
  exact ⟨_, _, hupper, hlower, hboth⟩

theorem scopes_error_iff (hpaused : c.stepper.paused = some paused)
    (hchain : CallerChain engine paused frames) (index : Nat) (e : QueryError) :
    c.scopes engine index = .error e ↔
      e = .frameNotFound index ∧ frames.length ≤ index ∨
        e = .frameIndexOutOfRange index ∧ index < frames.length ∧ maxFrames ≤ index := by
  rw [scopes_eq hpaused hchain]
  cases hentry : frames[index]? with
  | none =>
      have hmissing : frames.length ≤ index := List.getElem?_eq_none_iff.1 hentry
      constructor
      · intro h
        exact .inl ⟨(Except.error.inj h).symm, hmissing⟩
      · rintro (⟨rfl, -⟩ | ⟨-, hfound, -⟩)
        · rfl
        · exact absurd hmissing (Nat.not_le_of_lt hfound)
  | some entry =>
      obtain ⟨hfound, -⟩ := List.getElem?_eq_some_iff.1 hentry
      by_cases hindex : index < maxFrames
      · simp [hindex, hfound]
      · simp only [if_neg hindex, Except.error.injEq]
        constructor
        · intro h
          exact .inr ⟨h.symm, hfound, Nat.le_of_not_lt hindex⟩
        · rintro (⟨-, hmissing⟩ | ⟨rfl, -, -⟩)
          · exact absurd hmissing (Nat.not_le_of_lt hfound)
          · rfl

/-- What the answers about a stack have to do with one another. -/
structure AnswersAgree (engine : σ) (c : Context) (frames : List (FrameId × FrameInfo)) :
    Prop where
  /-- Each frame is shown under its place in the chain. -/
  numbered : ∀ k (frame : StackFrame), (showFrames engine 0 frames)[k]? = some frame → frame.id = k
  /-- A question for frames gets those from the index on, as many as are asked for or there are. -/
  page : ∀ index count, index < frames.length →
    c.stack engine index count = .ok (((showFrames engine 0 frames).drop index).take count)
  /-- It fails if there is no frame at the index, and for no other reason. -/
  missing : ∀ index count e,
    c.stack engine index count = .error e ↔ e = .frameNotFound index ∧ frames.length ≤ index
  /-- Frames that are asked for in two parts are those that are asked for at once. -/
  parts : ∀ index first second, index + first < frames.length →
    ∃ upper lower, c.stack engine index first = .ok upper ∧
      c.stack engine (index + first) second = .ok lower ∧
      c.stack engine index (first + second) = .ok (upper ++ lower)
  /-- The scopes of a frame are shown where its code unit stands, and the variables of the first one
  are the frame's bindings in order, and then the object that it works for. -/
  bindings : ∀ index entry, frames[index]? = some entry → index < maxFrames →
    ∃ locals globals, c.scopes engine index = .ok [locals, globals] ∧
      locals.source = (entry.2.unit.bind (Engine.unitInfo? engine)).map (·.url) ∧
      locals.line = (entry.2.unit.bind (Engine.unitInfo? engine)).map (·.start.line) ∧
      ∃ c' items, c.variablesBehind engine locals.variablesReference = .ok (c', items) ∧
        Lists engine c'.handles (bindingsOf engine entry.1 ++ thisOf entry.2) items
  /-- A question for scopes fails for frames that there are not, and for those too deep for a
  reference. -/
  refused : ∀ index e, c.scopes engine index = .error e ↔
    e = .frameNotFound index ∧ frames.length ≤ index ∨
      e = .frameIndexOutOfRange index ∧ index < frames.length ∧ maxFrames ≤ index

/-- Frames, scopes and variables speak of the same frames, in every engine and every pause in which
the callers of the paused frame resolve and come to an end. -/
theorem frames_scopes_variables_agree (engine : σ) (c : Context) {paused : FrameId}
    {frames : List (FrameId × FrameInfo)} (hpaused : c.stepper.paused = some paused)
    (hchain : CallerChain engine paused frames) : AnswersAgree engine c frames where
  numbered k frame hframe := by
    rw [getElem?_showFrames, Nat.zero_add] at hframe
    obtain ⟨entry, -, rfl⟩ := Option.map_eq_some_iff.1 hframe
    rfl
  page index count hindex := by rw [stack_eq hpaused hchain, if_pos hindex]
  missing := stack_error_iff hpaused hchain
  parts _ _ second hlast := stack_append hpaused hchain second hlast
  bindings index entry hentry hindex := by
    have hscopes := scopes_eq hpaused hchain index
    simp only [hentry, if_pos hindex] at hscopes
    have hvariables := variablesBehind_frame hpaused hchain hentry hindex
    exact ⟨_, _, hscopes, rfl, rfl, hvariables⟩
  refused := scopes_error_iff hpaused hchain

/-- The frame of a function that works for an object. Its caller was saved. -/
def calledFrame : Snapshot.Frame :=
  ⟨⟨some ⟨0⟩, 1, "call", some "f", some (.object ⟨5⟩), none, some ⟨1⟩⟩, ["x"],
    [("x", .bool true)]⟩

/-- A frame of native code. -/
def nativeFrame : Snapshot.Frame := ⟨⟨none, 0, "native", none, none, none, none⟩, [], []⟩

/-- An engine in which native code has called a function. -/
def savedCaller : Snapshot :=
  { topUnits := [⟨0⟩], globalId := ⟨1⟩
    units := [(⟨0⟩, ⟨some ⟨"main.mod", ⟨1, 0⟩, 2⟩, [], [⟨1, 0⟩, ⟨2, 0⟩]⟩)]
    frames := [(⟨2⟩, calledFrame), (⟨1⟩, nativeFrame)], objects := [] }

theorem frames_scopes_variables_agree_saved :
    CallerChain savedCaller ⟨2⟩ [(⟨2⟩, calledFrame.info), (⟨1⟩, nativeFrame.info)] ∧
      AnswersAgree savedCaller { stepper := { paused := some ⟨2⟩ } }
        [(⟨2⟩, calledFrame.info), (⟨1⟩, nativeFrame.info)] := by
  have hchain : CallerChain savedCaller ⟨2⟩
      [(⟨2⟩, calledFrame.info), (⟨1⟩, nativeFrame.info)] :=
    .call rfl rfl (.last rfl rfl)
  exact ⟨hchain, frames_scopes_variables_agree savedCaller _ rfl hchain⟩

end Context

end ScriptDebugger.Debug
