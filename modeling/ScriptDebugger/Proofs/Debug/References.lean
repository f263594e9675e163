import ScriptDebugger.Debug.Context
/-!
# References within a pause and beyond it

While a program is paused, an object that was shown keeps the reference that it was shown with, and
no other object has it. When the pause is over the reference means nothing, whatever is shown later:
the tables are emptied, and the numbers go on counting.

A debugger is watched over a sequence of calls. The engine is an argument of each call and may be in
any state there, so nothing is assumed about how it gets from one call to the next. The watch keeps,
beside the debugger, what was shown since the pause began and the references of the pauses before.

## Main results

* `Handles.Sound.allocate`, `Handles.extends_allocate` — giving out a number keeps the two tables
  inverse to each other and all entries that there are.
* `describeAll_again` — what was shown once is shown the same again.
* `Watch.Sound.after` — every call keeps the watch sound.
* `references_live_within_pause` — the whole of it, for every sequence of calls.
-/

namespace ScriptDebugger.Debug

open Wire (Variable)

/-! ## The tables -/

namespace Handles

section

variable {α β : Type} [BEq α] [LawfulBEq α]

theorem find_cons_self (key : α) (b : β) (table : List (α × β)) :
    find key ((key, b) :: table) = some b := by
  simp [find]

theorem find_cons_ne {key other : α} (h : other ≠ key) (b : β) (table : List (α × β)) :
    find other ((key, b) :: table) = find other table := by
  have : (key == other) = false := beq_eq_false_iff_ne.2 h.symm
  simp [find, this]

end

/-- The two tables say the same, and all numbers in them were given out, or are that of the global
object. -/
structure Sound (h : Handles) : Prop where
  fresh : firstReference ≤ h.next
  inverse : ∀ id number, find id h.byObject = some number ↔ find number h.byNumber = some id
  range : ∀ {number id}, find number h.byNumber = some id →
    globalReference ≤ number ∧ number < h.next

theorem sound_initial : Sound .initial where
  fresh := Nat.le_refl _
  inverse _ _ := ⟨nofun, nofun⟩
  range := nofun

/-- All that has a number keeps it, the numbers go on counting, and none that was passed gets a
meaning. -/
structure Extends (h h' : Handles) : Prop where
  next : h.next ≤ h'.next
  keeps : ∀ {id number}, find id h.byObject = some number → find id h'.byObject = some number
  silent : ∀ {number}, number < h.next → find number h.byNumber = none →
    find number h'.byNumber = none

theorem Extends.refl (h : Handles) : Extends h h := ⟨Nat.le_refl _, id, fun _ => id⟩

theorem Extends.trans {h h' h'' : Handles} (first : Extends h h') (second : Extends h' h'') :
    Extends h h'' where
  next := Nat.le_trans first.next second.next
  keeps hfound := second.keeps (first.keeps hfound)
  silent hpassed hnone :=
    second.silent (Nat.lt_of_lt_of_le hpassed first.next) (first.silent hpassed hnone)

namespace Sound

variable {h : Handles}

theorem clear (hs : Sound h) : Sound h.clear where
  fresh := hs.fresh
  inverse _ _ := ⟨nofun, nofun⟩
  range := nofun

/-- The global object is the first one that a pause knows. -/
theorem anchorGlobal (hs : Sound h) (id : ObjectId) : Sound (h.clear.anchorGlobal id) where
  fresh := hs.fresh
  inverse other number := by
    by_cases hid : other = id
    · subst hid
      by_cases hnumber : number = globalReference
      · subst hnumber
        exact ⟨fun _ => find_cons_self _ _ _, fun _ => find_cons_self _ _ _⟩
      · constructor
        · intro hfound
          exact absurd (Option.some.inj ((find_cons_self _ _ _).symm.trans hfound)).symm hnumber
        · intro hfound
          cases (find_cons_ne hnumber _ _).symm.trans hfound
    · constructor
      · intro hfound
        cases (find_cons_ne hid _ _).symm.trans hfound
      · intro hfound
        by_cases hnumber : number = globalReference
        · subst hnumber
          exact absurd (Option.some.inj ((find_cons_self _ _ _).symm.trans hfound)).symm hid
        · cases (find_cons_ne hnumber _ _).symm.trans hfound
  range {number _} hfound := by
    by_cases hnumber : number = globalReference
    · subst hnumber
      exact ⟨Nat.le_refl _, hs.fresh⟩
    · cases (find_cons_ne hnumber _ _).symm.trans hfound

/-- Giving out a number. -/
theorem allocate (hs : Sound h) (id : ObjectId) : Sound (h.allocate id).1 := by
  unfold Handles.allocate
  split
  · exact hs
  · rename_i hnew
    have hunused : ∀ {other}, find h.next h.byNumber ≠ some other := fun hfound =>
      Nat.lt_irrefl _ (hs.range hfound).2
    constructor
    · exact Nat.le_succ_of_le hs.fresh
    · intro other number
      by_cases hid : other = id
      · subst hid
        rw [find_cons_self]
        by_cases hnumber : number = h.next
        · subst hnumber
          rw [find_cons_self]
          exact iff_of_true rfl rfl
        · rw [find_cons_ne hnumber, ← hs.inverse, hnew]
          exact iff_of_false (fun heq => hnumber (Option.some.inj heq).symm) nofun
      · rw [find_cons_ne hid]
        by_cases hnumber : number = h.next
        · subst hnumber
          rw [find_cons_self, hs.inverse]
          exact iff_of_false hunused fun heq => hid (Option.some.inj heq).symm
        · rw [find_cons_ne hnumber]
          exact hs.inverse other number
    · intro number other hfound
      by_cases hnumber : number = h.next
      · subst hnumber
        have hlow : globalReference < h.next := hs.fresh
        exact ⟨Nat.le_of_lt hlow, Nat.lt_succ_self _⟩
      · rw [find_cons_ne hnumber] at hfound
        exact ⟨(hs.range hfound).1, Nat.lt_succ_of_lt (hs.range hfound).2⟩

/-- What a number means that an object has. -/
theorem resolve (hs : Sound h) {id : ObjectId} {number : Nat}
    (hfound : find id h.byObject = some number) :
    h.resolve number = some (.object id) ∧ maxFrames < number := by
  have hnumber := (hs.inverse id number).1 hfound
  have hlow : maxFrames < number := (hs.range hnumber).1
  refine ⟨?_, hlow⟩
  rw [Handles.resolve, if_neg (Nat.ne_of_gt (Nat.lt_of_le_of_lt (Nat.zero_le _) hlow)),
    if_neg (Nat.not_le.2 hlow), hnumber]
  rfl

end Sound

theorem extends_allocate (h : Handles) (id : ObjectId) : Extends h (h.allocate id).1 := by
  unfold allocate
  split
  · exact .refl h
  · rename_i hnew
    refine ⟨Nat.le_succ _, fun {other number} hfound => ?_, fun {number} hpassed hnone => ?_⟩
    · have hother : other ≠ id := fun heq => by
        subst heq
        cases hnew.symm.trans hfound
      rw [find_cons_ne hother]
      exact hfound
    · rw [find_cons_ne (Nat.ne_of_lt hpassed)]
      exact hnone

theorem find_allocate (h : Handles) (id : ObjectId) :
    find id (h.allocate id).1.byObject = some (h.allocate id).2 := by
  unfold allocate
  split
  · assumption
  · exact find_cons_self _ _ _

/-- The reference of a value: that of an object, and none for anything else. -/
def Refers (h : Handles) (value : Value) (reference : Nat) : Prop :=
  match value with
  | .object id => find id h.byObject = some reference
  | _ => reference = 0

theorem Refers.extend {h h' : Handles} (hext : Extends h h') {value : Value} {reference : Nat}
    (hrefers : h.Refers value reference) : h'.Refers value reference := by
  cases value with
  | object id => exact hext.keeps hrefers
  | _ => exact hrefers

end Handles

/-! ## What is shown -/

namespace Context

section

variable {σ : Type} [Engine σ] (engine : σ)

theorem sound_describe {h : Handles} (hs : h.Sound) (name : String) (value : Value) :
    (describe engine h name value).1.Sound := by
  cases value with
  | object id => exact hs.allocate id
  | _ => exact hs

theorem extends_describe (h : Handles) (name : String) (value : Value) :
    h.Extends (describe engine h name value).1 := by
  cases value with
  | object id => exact h.extends_allocate id
  | _ => exact .refl h

theorem refers_describe (h : Handles) (name : String) (value : Value) :
    (describe engine h name value).1.Refers value
      (describe engine h name value).2.variablesReference := by
  cases value with
  | object id => exact h.find_allocate id
  | _ => rfl

/-- A value that was shown is shown the same again. -/
theorem describe_again {h h' : Handles} {name : String} {value : Value}
    (hext : (describe engine h name value).1.Extends h') :
    describe engine h' name value = (h', (describe engine h name value).2) := by
  cases value with
  | object id =>
      have hfound : Handles.find id h'.byObject = some (h.allocate id).2 :=
        hext.keeps (h.find_allocate id)
      have hagain : h'.allocate id = (h', (h.allocate id).2) := by
        rw [Handles.allocate, hfound]
      simp only [describe, describeValue, hagain]
  | _ => rfl

theorem describeAll_cons (h : Handles) (name : String) (value : Value)
    (rest : List (String × Value)) :
    describeAll engine h ((name, value) :: rest) =
      ((describeAll engine (describe engine h name value).1 rest).1,
        (describe engine h name value).2 ::
          (describeAll engine (describe engine h name value).1 rest).2) := rfl

theorem sound_describeAll {h : Handles} (hs : h.Sound) (entries : List (String × Value)) :
    (describeAll engine h entries).1.Sound := by
  induction entries generalizing h with
  | nil => exact hs
  | cons entry rest ih => exact ih (sound_describe engine hs entry.1 entry.2)

theorem extends_describeAll (h : Handles) (entries : List (String × Value)) :
    h.Extends (describeAll engine h entries).1 := by
  induction entries generalizing h with
  | nil => exact .refl h
  | cons entry rest ih => exact (extends_describe engine h entry.1 entry.2).trans (ih _)

/-- The values of entries, each with the reference that it is shown with. -/
def showings (entries : List (String × Value)) (items : List Variable) : List (Value × Nat) :=
  (entries.map Prod.snd).zip (items.map (·.variablesReference))

theorem refers_describeAll (h : Handles) (entries : List (String × Value)) :
    ∀ p ∈ showings entries (describeAll engine h entries).2,
      (describeAll engine h entries).1.Refers p.1 p.2 := by
  induction entries generalizing h with
  | nil => nofun
  | cons entry rest ih =>
      obtain ⟨name, value⟩ := entry
      intro p hp
      rcases List.mem_cons.1 hp with rfl | hp
      · exact (refers_describe engine h name value).extend (extends_describeAll engine _ rest)
      · exact ih _ p hp

/-- Values that were shown are shown the same again. -/
theorem describeAll_again {h h' : Handles} {entries : List (String × Value)}
    (hext : (describeAll engine h entries).1.Extends h') :
    describeAll engine h' entries = (h', (describeAll engine h entries).2) := by
  induction entries generalizing h with
  | nil => rfl
  | cons entry rest ih =>
      obtain ⟨name, value⟩ := entry
      have hfirst := (extends_describeAll engine (describe engine h name value).1 rest).trans hext
      rw [describeAll_cons, describe_again engine hfirst, ih hext]
      rfl

variable (c : Context) (reference : Nat)

/-- The named values behind a reference. -/
def entriesBehind : Except QueryError (List (String × Value)) :=
  match c.target reference with
  | .error e => .error e
  | .ok (.object id) => .ok (objectEntries engine id)
  | .ok (.frame index) => (c.findFrame engine index).map (frameEntries engine)

theorem variablesBehind_eq :
    c.variablesBehind engine reference =
      (c.entriesBehind engine reference).map fun entries =>
        ({ c with handles := (describeAll engine c.handles entries).1 },
          (describeAll engine c.handles entries).2) := by
  rw [variablesBehind, entriesBehind]
  rcases c.target reference with e | index | id
  · rfl
  · show (c.findFrame engine index).map (frameEntries engine) >>= _ =
      ((c.findFrame engine index).map (frameEntries engine)).map _
    cases c.findFrame engine index <;> rfl
  · rfl

/-- What a name behind a reference reads back as in the engine that an assignment leaves; the frame
was found in the engine before. -/
def readBack (left : σ) (name : String) : Value :=
  match c.target reference with
  | .error _ => .undefined
  | .ok (.object id) => (Engine.property? left id name).getD .undefined
  | .ok (.frame index) =>
    match c.findFrame engine index with
    | .error _ => .undefined
    | .ok frame => (Engine.binding? left frame name).getD .undefined

/-- An assignment that is accepted shows what it reads back. -/
theorem setVariable_ok {left : σ} {name : String} {value : Json} {c' : Context} {v : Variable}
    (h : c.setVariable engine reference name value = (left, .ok (c', v))) :
    c' = { c with
        handles := (describe left c.handles name (c.readBack engine reference left name)).1 } ∧
      v = (describe left c.handles name (c.readBack engine reference left name)).2 := by
  rw [setVariable] at h
  rw [readBack]
  rcases htarget : c.target reference with e | index | id
  · simp only [htarget] at h
    cases (Prod.mk.inj h).2
  · cases hframe : c.findFrame engine index with
    | error e =>
        simp only [htarget, hframe] at h
        cases (Prod.mk.inj h).2
    | ok frame =>
        simp only [htarget, hframe] at h ⊢
        split at h
        · cases (Prod.mk.inj h).2
        · obtain ⟨rfl, hread⟩ := Prod.mk.inj h
          obtain ⟨rfl, rfl⟩ := Prod.mk.inj (Except.ok.inj hread)
          exact ⟨rfl, rfl⟩
  · simp only [htarget] at h
    split at h
    · cases (Prod.mk.inj h).2
    · obtain ⟨rfl, hread⟩ := Prod.mk.inj h
      obtain ⟨rfl, rfl⟩ := Prod.mk.inj (Except.ok.inj hread)
      exact ⟨rfl, rfl⟩

/-- What a reference means is known while the program is paused. -/
theorem target_eq :
    c.target reference =
      match c.stepper.paused, c.handles.resolve reference with
      | none, _ => .error .notPaused
      | some _, none => .error (.unknownHandle reference)
      | some _, some target => .ok target := by
  rw [target, currentFrame]
  cases c.stepper.paused with
  | none => rfl
  | some frame => cases c.handles.resolve reference <;> rfl

/-! ## Within a pause -/

/-- The pause goes on: the same frame is paused, and all references are kept. -/
structure Continues (c c' : Context) : Prop where
  paused : c'.stepper.paused = c.stepper.paused
  handles : c.handles.Extends c'.handles

theorem Continues.refl (c : Context) : c.Continues c := ⟨rfl, .refl _⟩

theorem Continues.trans {c c' c'' : Context} (first : c.Continues c') (second : c'.Continues c'') :
    c.Continues c'' :=
  ⟨second.paused.trans first.paused, first.handles.trans second.handles⟩

end

end Context

namespace Handles

/-- What a number means it goes on to mean. -/
theorem Extends.resolve {h h' : Handles} (hext : Extends h h') (hs : h.Sound) (hs' : h'.Sound)
    {number : Nat} {target : Target} (hresolve : h.resolve number = some target) :
    h'.resolve number = some target := by
  unfold Handles.resolve at hresolve ⊢
  split
  · rename_i hzero
    rwa [if_pos hzero] at hresolve
  · rename_i hzero
    rw [if_neg hzero] at hresolve
    split
    · rename_i hframe
      rwa [if_pos hframe] at hresolve
    · rename_i hframe
      rw [if_neg hframe] at hresolve
      obtain ⟨id, hfound, rfl⟩ := Option.map_eq_some_iff.1 hresolve
      rw [(hs'.inverse id number).1 (hext.keeps ((hs.inverse id number).2 hfound))]
      rfl

end Handles

namespace Context

section

variable {σ : Type} [Engine σ] {engine : σ} {c c' : Context} {reference : Nat}

theorem Continues.target (h : c.Continues c') (hs : c.handles.Sound) (hs' : c'.handles.Sound)
    {target : Target} (htarget : c.target reference = .ok target) :
    c'.target reference = .ok target := by
  rw [target_eq] at htarget ⊢
  rw [h.paused]
  cases hpaused : c.stepper.paused with
  | none =>
      rw [hpaused] at htarget
      cases htarget
  | some frame =>
      rw [hpaused] at htarget
      cases hresolve : c.handles.resolve reference with
      | none =>
          rw [hresolve] at htarget
          cases htarget
      | some found =>
          rw [hresolve] at htarget
          rw [h.handles.resolve hs hs' hresolve]
          exact htarget

theorem Continues.findFrame (h : c.Continues c') (index : Nat) :
    c'.findFrame engine index = c.findFrame engine index := by
  unfold Context.findFrame Context.currentFrame
  rw [h.paused]

theorem Continues.entriesBehind (h : c.Continues c') (hs : c.handles.Sound)
    (hs' : c'.handles.Sound) {entries : List (String × Value)}
    (hentries : c.entriesBehind engine reference = .ok entries) :
    c'.entriesBehind engine reference = .ok entries := by
  unfold Context.entriesBehind at hentries ⊢
  cases htarget : c.target reference with
  | error e =>
      rw [htarget] at hentries
      cases hentries
  | ok target =>
      rw [htarget] at hentries
      rw [h.target hs hs' htarget]
      cases target with
      | object id => exact hentries
      | frame index =>
          simp only [h.findFrame]
          exact hentries

end

end Context

/-! ## A debugger under watch -/

/-- A call to the debugger. The engine is in any state. -/
inductive Call (σ : Type)
  /-- An event of the engine. -/
  | event (engine : σ) (event : Event)
  /-- The end of a pause. -/
  | resume (mode : RunMode)
  /-- The question for the variables behind a reference. -/
  | read (engine : σ) (reference : Nat)
  /-- A new value for a variable behind a reference. -/
  | assign (engine : σ) (reference : Nat) (name : String) (value : Json)

/-- A debugger, and what it has shown. -/
structure Watch where
  /-- The debugger. -/
  context : Context := .initial
  /-- The values that were shown since the pause began, each with its reference. -/
  shown : List (Value × Nat) := []
  /-- The references that stand above that of the global object and were shown in pauses that are
  over. -/
  past : List Nat := []
  /-- How often a pause has been over. -/
  ends : Nat := 0

namespace Watch

/-- The pause is over. -/
def endPause (w : Watch) : Watch :=
  { w with
    shown := []
    past := w.past ++ (w.shown.map Prod.snd).filter fun number => globalReference < number
    ends := w.ends + 1 }

variable {σ : Type} [Engine σ]

/-- A call. A pause is over when the program goes on, when it has ended, and when it stops anew. -/
def after (w : Watch) : Call σ → Watch
  | .event engine event =>
    let (context, stop) := w.context.onEvent engine event
    if stop.isSome ∨ event = .finished then { w with context }.endPause else { w with context }
  | .resume mode => { w with context := w.context.resume mode }.endPause
  | .read engine reference =>
    match w.context.entriesBehind engine reference, w.context.variablesBehind engine reference with
    | .ok entries, .ok (context, items) =>
      { w with context, shown := w.shown ++ Context.showings entries items }
    | _, _ => w
  | .assign engine reference name value =>
    match w.context.setVariable engine reference name value with
    | (left, .ok (context, item)) =>
      { w with
        context
        shown := w.shown ++
          [(w.context.readBack engine reference left name, item.variablesReference)] }
    | (_, .error _) => w

/-- Calls one after another. -/
def run (w : Watch) (calls : List (Call σ)) : Watch := calls.foldl after w

/-- What holds of a debugger at any time: what was shown has its reference, nothing was shown while
the program runs, and the references of former pauses were given out, and have no meaning in this
one. -/
structure Sound (w : Watch) : Prop where
  handles : w.context.handles.Sound
  refers : ∀ p ∈ w.shown, w.context.handles.Refers p.1 p.2
  running : w.context.stepper.paused = none → w.shown = []
  issued : ∀ number ∈ w.past, globalReference < number ∧ number < w.context.handles.next
  expired : ∀ number ∈ w.past, w.context.stepper.paused ≠ none →
    Handles.find number w.context.handles.byNumber = none

theorem sound_initial : Sound {} where
  handles := Handles.sound_initial
  refers := nofun
  running _ := rfl
  issued := nofun
  expired := nofun

namespace Sound

variable {w : Watch}

/-- The references that a pause leaves behind. -/
theorem issued_endPause (h : w.Sound) :
    ∀ number ∈ w.endPause.past,
      globalReference < number ∧ number < w.context.handles.next := by
  intro number hmem
  rcases List.mem_append.1 hmem with hmem | hmem
  · exact h.issued number hmem
  · obtain ⟨hshown, hdecide⟩ := List.mem_filter.1 hmem
    obtain ⟨⟨value, reference⟩, hp, rfl⟩ := List.mem_map.1 hshown
    have habove : globalReference < reference := of_decide_eq_true hdecide
    have hrefers := h.refers _ hp
    cases value with
    | object id => exact ⟨habove, (h.handles.range ((h.handles.inverse id _).1 hrefers)).2⟩
    | _ =>
        have hzero : reference = 0 := hrefers
        exact absurd (hzero ▸ habove) (Nat.not_lt_zero _)

/-- A pause is over, and the next one begins with at most the global object known. -/
theorem renew (h : w.Sound) {c : Context} (hs : c.handles.Sound)
    (hnext : c.handles.next = w.context.handles.next)
    (hempty : c.stepper.paused ≠ none → ∀ number, globalReference < number →
      Handles.find number c.handles.byNumber = none) : ({ w with context := c }.endPause).Sound where
  handles := hs
  refers := nofun
  running _ := rfl
  issued number hmem := by
    obtain ⟨habove, hbelow⟩ := h.issued_endPause number hmem
    exact ⟨habove, hnext ▸ hbelow⟩
  expired number hmem hpaused := hempty hpaused number (h.issued_endPause number hmem).1

/-- The pause goes on, and more is shown. -/
theorem show_more (h : w.Sound) {c : Context} {more : List (Value × Nat)}
    (hs : c.handles.Sound) (hcont : w.context.Continues c)
    (hmore : ∀ p ∈ more, c.handles.Refers p.1 p.2)
    (hnone : w.context.stepper.paused = none → more = []) :
    ({ w with context := c, shown := w.shown ++ more } : Watch).Sound where
  handles := hs
  refers p hp := by
    rcases List.mem_append.1 hp with hp | hp
    · exact (h.refers p hp).extend hcont.handles
    · exact hmore p hp
  running hpaused := by
    have hbefore : w.context.stepper.paused = none := hcont.paused.symm.trans hpaused
    show w.shown ++ more = []
    rw [h.running hbefore, hnone hbefore]
    rfl
  issued number hmem := by
    obtain ⟨habove, hbelow⟩ := h.issued number hmem
    exact ⟨habove, Nat.lt_of_lt_of_le hbelow hcont.handles.next⟩
  expired number hmem hpaused :=
    hcont.handles.silent (h.issued number hmem).2 (h.expired number hmem (hcont.paused ▸ hpaused))

end Sound

/-! ### One call -/

/-- What a call does: it ends a pause, or the pause goes on. -/
inductive Goes (w : Watch) : Watch → Prop
  | ends {c : Context} (hsound : ({ w with context := c }.endPause).Sound) :
    Goes w ({ w with context := c }.endPause)
  | on {c : Context} {more : List (Value × Nat)} (hcont : w.context.Continues c)
    (hsound : ({ w with context := c, shown := w.shown ++ more } : Watch).Sound) :
    Goes w { w with context := c, shown := w.shown ++ more }

/-- Nothing changes. -/
theorem Goes.refl {w : Watch} (h : w.Sound) : Goes w w := by
  have hsame : ({ w with shown := w.shown ++ [] } : Watch) = w := by rw [List.append_nil]
  have hgoes : Goes w { w with context := w.context, shown := w.shown ++ [] } :=
    .on (.refl _) (hsame.symm ▸ h)
  rwa [hsame] at hgoes

end Watch

/-- An event that is no stop leaves the pause as it is, unless it is the end of the program. -/
theorem Stepper.onEvent_paused {σ : Type} [Engine σ] {s : Stepper} {engine : σ} {event : Event}
    (hfinish : event ≠ .finished) (hnone : (s.onEvent engine event).2 = none) :
    (s.onEvent engine event).1.paused = s.paused := by
  cases event with
  | finished => exact absurd rfl hfinish
  | enterFrame frame =>
      simp only [onEvent] at hnone ⊢
      split
      · rfl
      · rename_i henter
        rw [if_neg henter] at hnone
        split at hnone <;> cases hnone
  | step frame =>
      simp only [onEvent] at hnone ⊢
      split
      · rfl
      · rename_i haction
        rw [if_neg haction] at hnone
        split
        · rfl
        · rename_i hplace
          rw [if_neg hplace] at hnone
          cases hnone
  | pop frame =>
      simp only [onEvent]
      split
      · rfl
      · unfold leave
        dsimp only
        split <;> rfl
  | breakpoint frame offset => cases hnone

namespace Watch

variable {σ : Type} [Engine σ] {w : Watch}

theorem goes_event (h : w.Sound) (engine : σ) (event : Event) :
    Goes w (w.after (.event engine event)) := by
  rcases hstepper : w.context.stepper.onEvent engine event with ⟨stepper, _ | stop⟩
  · have honEvent : w.context.onEvent engine event = ({ w.context with stepper }, none) := by
      rw [Context.onEvent, hstepper]
    simp only [after, honEvent]
    by_cases hfinish : event = .finished
    · rw [if_pos (Or.inr hfinish)]
      subst hfinish
      have hpaused : stepper.paused = none := by
        obtain ⟨rfl, -⟩ := Prod.mk.inj hstepper
        rfl
      exact .ends (h.renew h.handles rfl fun hstill => absurd hpaused hstill)
    · rw [if_neg (by simp [hfinish])]
      have hpaused : stepper.paused = w.context.stepper.paused := by
        have hnone : (w.context.stepper.onEvent engine event).2 = none := by rw [hstepper]
        have hkept := Stepper.onEvent_paused hfinish hnone
        rwa [hstepper] at hkept
      have hcont : w.context.Continues { w.context with stepper } := ⟨hpaused, .refl _⟩
      have hsame : ({ w with context := { w.context with stepper } } : Watch) =
          { w with context := { w.context with stepper }, shown := w.shown ++ [] } := by
        rw [List.append_nil]
      rw [hsame]
      exact .on hcont (h.show_more h.handles hcont nofun fun _ => rfl)
  · have honEvent : ∃ handles breakpoints,
        w.context.onEvent engine event = (⟨stepper, breakpoints, handles⟩, some stop) ∧
          handles.Sound ∧ handles.next = w.context.handles.next ∧
          ∀ number, globalReference < number →
            Handles.find number handles.byNumber = none := by
      rw [Context.onEvent, hstepper]
      refine ⟨_, _, rfl, ?_⟩
      split
      · refine ⟨h.handles.anchorGlobal _, rfl, fun number habove => ?_⟩
        exact Handles.find_cons_ne (Nat.ne_of_gt habove) _ _
      · exact ⟨h.handles.clear, rfl, fun _ _ => rfl⟩
    obtain ⟨handles, breakpoints, honEvent, hs, hnext, hempty⟩ := honEvent
    simp only [after, honEvent]
    rw [if_pos (Or.inl (Option.isSome_some))]
    exact .ends (h.renew hs hnext fun _ => hempty)

theorem goes_resume (h : w.Sound) (mode : RunMode) :
    Goes w (w.after (.resume mode : Call σ)) :=
  .ends (h.renew h.handles.clear rfl fun _ _ _ => rfl)

theorem goes_read (h : w.Sound) (engine : σ) (reference : Nat) :
    Goes w (w.after (.read engine reference)) := by
  simp only [after, Context.variablesBehind_eq]
  cases hentries : w.context.entriesBehind engine reference with
  | error e => exact .refl h
  | ok entries =>
      have hpaused : w.context.stepper.paused ≠ none := by
        intro hrunning
        rw [Context.entriesBehind, Context.target_eq, hrunning] at hentries
        cases hentries
      have hcont : w.context.Continues
          { w.context with
            handles := (Context.describeAll engine w.context.handles entries).1 } :=
        ⟨rfl, Context.extends_describeAll engine _ entries⟩
      exact .on hcont
        (h.show_more (Context.sound_describeAll engine h.handles entries) hcont
          (Context.refers_describeAll engine _ entries) fun hrunning => absurd hrunning hpaused)

theorem goes_assign (h : w.Sound) (engine : σ) (reference : Nat) (name : String) (value : Json) :
    Goes w (w.after (.assign engine reference name value)) := by
  rcases hset : w.context.setVariable engine reference name value with ⟨left, e | ⟨c, item⟩⟩
  · simp only [after, hset]
    exact .refl h
  · simp only [after, hset]
    have hpaused : w.context.stepper.paused ≠ none := by
      intro hrunning
      rw [Context.setVariable, Context.target_eq, hrunning] at hset
      cases hset
    obtain ⟨rfl, rfl⟩ := Context.setVariable_ok engine w.context reference hset
    generalize w.context.readBack engine reference left name = content
    have hcont : w.context.Continues
        { w.context with
          handles := (Context.describe left w.context.handles name content).1 } :=
      ⟨rfl, Context.extends_describe left _ name content⟩
    refine .on hcont
      (h.show_more (Context.sound_describe left h.handles name content) hcont ?_ fun hrunning =>
        absurd hrunning hpaused)
    intro p hp
    rw [List.mem_singleton.1 hp]
    exact Context.refers_describe left _ name content

theorem goes_after (h : w.Sound) (call : Call σ) : Goes w (w.after call) := by
  cases call with
  | event engine event => exact goes_event h engine event
  | resume mode => exact goes_resume h mode
  | read engine reference => exact goes_read h engine reference
  | assign engine reference name value => exact goes_assign h engine reference name value

/-- Every call keeps the watch sound. -/
theorem Sound.after (h : w.Sound) (call : Call σ) : (w.after call).Sound := by
  have hgoes := goes_after h call
  generalize w.after call = next at hgoes
  cases hgoes with
  | ends hsound => exact hsound
  | on _ hsound => exact hsound

theorem Sound.run (h : w.Sound) (calls : List (Call σ)) : (w.run calls).Sound := by
  induction calls generalizing w with
  | nil => exact h
  | cons call calls ih => exact ih (h.after call)

/-- Pauses that are over do not come back, and while none is over the same one goes on. -/
theorem run_continues (h : w.Sound) (calls : List (Call σ)) :
    w.ends ≤ (w.run calls).ends ∧
      ((w.run calls).ends = w.ends → w.context.Continues (w.run calls).context) := by
  induction calls generalizing w with
  | nil => exact ⟨Nat.le_refl _, fun _ => .refl _⟩
  | cons call calls ih =>
      have hgoes := goes_after h call
      have hrest := ih (h.after call)
      change w.ends ≤ ((w.after call).run calls).ends ∧
        (((w.after call).run calls).ends = w.ends →
          w.context.Continues ((w.after call).run calls).context)
      generalize w.after call = next at hgoes hrest
      cases hgoes with
      | ends _ =>
          have hmore : w.ends + 1 ≤ _ := hrest.1
          exact ⟨by omega, fun hsame => absurd hmore (by omega)⟩
      | on hcont _ => exact ⟨hrest.1, fun hsame => hcont.trans (hrest.2 hsame)⟩

end Watch

/-! ## The life of references -/

/-- The life of the references that a debugger has shown. -/
structure ReferencesKept (σ : Type) [Engine σ] (w : Watch) : Prop where
  /-- A reference that is not zero belongs to an object. -/
  ofObject : ∀ value number, (value, number) ∈ w.shown → number ≠ 0 → ∃ id, value = .object id
  /-- Until the pause is over, the reference that an object was shown with means that object, and
  stands above the references of frames. -/
  resolves : ∀ id number, (.object id, number) ∈ w.shown →
    w.context.target number = .ok (.object id) ∧ maxFrames < number
  /-- One object has one reference, and two objects have two. -/
  apart : ∀ id number id' number', (.object id, number) ∈ w.shown →
    (.object id', number') ∈ w.shown → (id = id' ↔ number = number')
  /-- While fewer numbers were given out than there are words of 32 bits above the first one, all
  references are words. -/
  words : w.context.handles.next - firstReference < UInt32.size - firstReference →
    ∀ value number, (value, number) ∈ w.shown → number < UInt32.size
  /-- What was shown behind a reference is shown again until the pause is over, whatever is called
  in between, as long as the engine is the same. -/
  repeats : ∀ (engine : σ) (reference : Nat) (c : Context) (items : List Variable),
    w.context.variablesBehind engine reference = .ok (c, items) →
    ∀ calls : List (Call σ), (w.run (.read engine reference :: calls)).ends = w.ends →
      ∃ c', (w.run (.read engine reference :: calls)).context.variablesBehind engine reference =
        .ok (c', items)
  /-- A reference of a pause that is over is refused, and the engine is left as it is. -/
  dead : ∀ number ∈ w.past, ∀ engine : σ, ∃ e,
    w.context.variablesBehind engine number = .error e ∧
      ∀ name value, w.context.setVariable engine number name value = (engine, .error e)

namespace Watch.Sound

variable {σ : Type} [Engine σ] {w : Watch}

theorem repeats (h : w.Sound) {engine : σ} {reference : Nat} {c : Context} {items : List Variable}
    (hshown : w.context.variablesBehind engine reference = .ok (c, items)) {calls : List (Call σ)}
    (hsame : (w.run (.read engine reference :: calls)).ends = w.ends) :
    ∃ c', (w.run (.read engine reference :: calls)).context.variablesBehind engine reference =
      .ok (c', items) := by
  rw [Context.variablesBehind_eq] at hshown
  cases hentries : w.context.entriesBehind engine reference with
  | error e =>
      rw [hentries] at hshown
      cases hshown
  | ok entries =>
      rw [hentries] at hshown
      obtain ⟨rfl, rfl⟩ := Prod.mk.inj (Except.ok.inj hshown)
      -- behind the first question, all of the objects have their references
      have hfirst : (w.after (.read engine reference)).context =
          { w.context with
            handles := (Context.describeAll engine w.context.handles entries).1 } := by
        simp only [Watch.after, Context.variablesBehind_eq, hentries]
        rfl
      have hends : (w.after (.read engine reference)).ends = w.ends := by
        simp only [Watch.after, Context.variablesBehind_eq, hentries]
        rfl
      have hcont := (run_continues h (.read engine reference :: calls)).2 hsame
      have hrest := (run_continues (h.after (.read engine reference)) calls).2
        (hsame.trans hends.symm)
      have hagain := hcont.entriesBehind h.handles (h.run _).handles hentries
      have hext := hrest.handles
      rw [hfirst] at hext
      rw [Context.variablesBehind_eq, hagain, Except.map]
      have hsame' := Context.describeAll_again engine hext
      exact ⟨_, congrArg (fun shown => Except.ok (_, shown.2)) hsame'⟩

theorem dead (h : w.Sound) {number : Nat} (hmem : number ∈ w.past) (engine : σ) :
    ∃ e, w.context.variablesBehind engine number = .error e ∧
      ∀ name value, w.context.setVariable engine number name value = (engine, .error e) := by
  have habove : maxFrames < number := Nat.lt_trans (Nat.lt_succ_self _) (h.issued number hmem).1
  obtain ⟨e, htarget⟩ : ∃ e, w.context.target number = .error e := by
    rw [Context.target_eq]
    cases hpaused : w.context.stepper.paused with
    | none => exact ⟨_, rfl⟩
    | some frame =>
        have hnone : w.context.handles.resolve number = none := by
          rw [Handles.resolve, if_neg (by omega), if_neg (by omega),
            h.expired number hmem (by simp [hpaused])]
          rfl
        rw [hnone]
        exact ⟨_, rfl⟩
  refine ⟨e, ?_, fun name value => ?_⟩
  · rw [Context.variablesBehind_eq, Context.entriesBehind, htarget]
    rfl
  · rw [Context.setVariable, htarget]

end Watch.Sound

/-- References are stable within a pause and dead behind it, for every engine and every sequence of
calls. -/
theorem references_live_within_pause {σ : Type} [Engine σ] (calls : List (Call σ)) :
    ReferencesKept σ (Watch.run {} calls) := by
  have hsound : (Watch.run {} calls).Sound := Watch.sound_initial.run calls
  generalize Watch.run {} calls = w at hsound
  constructor
  · intro value number hmem hnonzero
    have hrefers := hsound.refers _ hmem
    cases value with
    | object id => exact ⟨id, rfl⟩
    | _ => exact absurd hrefers hnonzero
  · intro id number hmem
    obtain ⟨hresolve, habove⟩ := hsound.handles.resolve (hsound.refers _ hmem)
    refine ⟨?_, habove⟩
    rw [Context.target_eq, hresolve]
    cases hpaused : w.context.stepper.paused with
    | none =>
        rw [hsound.running hpaused] at hmem
        cases hmem
    | some frame => rfl
  · intro id number id' number' hmem hmem'
    have hrefers : Handles.find id w.context.handles.byObject = some number :=
      hsound.refers _ hmem
    have hrefers' : Handles.find id' w.context.handles.byObject = some number' :=
      hsound.refers _ hmem'
    constructor
    · rintro rfl
      exact Option.some.inj (hrefers.symm.trans hrefers')
    · rintro rfl
      have hmeans := (hsound.handles.inverse id number).1 hrefers
      have hmeans' := (hsound.handles.inverse id' number).1 hrefers'
      exact Option.some.inj (hmeans.symm.trans hmeans')
  · intro hfew value number hmem
    have hrefers := hsound.refers _ hmem
    cases value with
    | object id =>
        have hbelow := (hsound.handles.range ((hsound.handles.inverse id number).1 hrefers)).2
        omega
    | _ =>
        have hzero : number = 0 := hrefers
        rw [hzero]
        decide
  · intro engine reference c items hshown more hsame
    exact hsound.repeats hshown hsame
  · intro number hmem engine
    exact hsound.dead hmem engine

end ScriptDebugger.Debug
