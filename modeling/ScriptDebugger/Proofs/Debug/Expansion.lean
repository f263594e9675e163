import ScriptDebugger.Proofs.Debug.Explored
/-!
# Expanding variables

What a front end shows as a tree is a walk over objects: behind a reference there are variables, and
some of these have references of their own. The walk comes to an end, because a property holds an
object that was created after the one with the property. The references of a pause are given out on
the way, so a level is a question to the debugger as it was left by the questions before.

## Main results

* `Expansion.object` — a reference that is shown means an object, one for each level at least.
* `objects_form_order` — the objects of a machine are in order, and every expansion ends.
-/

namespace ScriptDebugger.Debug

open Machine (Heap Program State)
open Wire (Variable)

/-- Some levels below a reference: at each of them, a variable that has a reference was chosen among
those behind the reference before. Other questions may be asked in between. -/
inductive Expansion (s : State) (c₀ : Context) (start : Nat) : Nat → Context → Nat → Prop
  /-- At the reference itself. -/
  | here : Expansion s c₀ start 0 c₀ start
  /-- Another question. -/
  | ask {level : Nat} {c c' : Context} {reference other : Nat} {items : List Variable}
    (h : Expansion s c₀ start level c reference)
    (hask : c.variablesBehind s other = .ok (c', items)) :
    Expansion s c₀ start level c' reference
  /-- One level deeper. -/
  | deeper {level : Nat} {c c' : Context} {reference : Nat} {items : List Variable} {v : Variable}
    (h : Expansion s c₀ start level c reference)
    (hask : c.variablesBehind s reference = .ok (c', items)) (hv : v ∈ items)
    (hopen : v.variablesReference ≠ 0) :
    Expansion s c₀ start (level + 1) c' v.variablesReference

section

variable {s : State} {c c' : Context} {reference : Nat} {items : List Variable}

/-- What an answered question has listed. -/
theorem variablesBehind_ok (hask : c.variablesBehind s reference = .ok (c', items)) :
    ∃ entries, c.entriesBehind s reference = .ok entries ∧
      c' = { c with handles := c'.handles } ∧ c.handles.Extends c'.handles ∧
      Context.Lists s c'.handles entries items := by
  rw [Context.variablesBehind_eq] at hask
  cases hentries : c.entriesBehind s reference with
  | error e =>
      rw [hentries] at hask
      cases hask
  | ok entries =>
      rw [hentries] at hask
      obtain ⟨rfl, rfl⟩ := Prod.mk.inj (Except.ok.inj hask)
      exact ⟨entries, rfl, rfl, Context.extends_describeAll s c.handles entries,
        Context.lists_describeAll s c.handles entries⟩

/-- A listed variable shows an entry. -/
theorem exists_entry {handles : Handles} {entries : List (String × Value)}
    (h : Context.Lists s handles entries items) {v : Variable} (hv : v ∈ items) :
    ∃ entry ∈ entries, Context.describe s handles entry.1 entry.2 = (handles, v) := by
  induction h with
  | nil => cases hv
  | cons hfirst _ ih =>
      rcases List.mem_cons.1 hv with rfl | hv
      · exact ⟨_, List.mem_cons_self, hfirst.2⟩
      · obtain ⟨entry, hentry, hshown⟩ := ih hv
        exact ⟨entry, List.mem_cons_of_mem _ hentry, hshown⟩

/-- A reference that has entries behind it is asked for in a pause. -/
theorem paused_of_entriesBehind {entries : List (String × Value)}
    (hentries : c.entriesBehind s reference = .ok entries) :
    ∃ frame, c.stepper.paused = some frame := by
  cases hpaused : c.stepper.paused with
  | some frame => exact ⟨frame, rfl⟩
  | none =>
      have htarget : c.target reference = .error .notPaused := by
        rw [Context.target_eq, hpaused]
      rw [Context.entriesBehind, htarget] at hentries
      cases hentries

/-- A variable that has a reference shows an object, which the reference means from then on. -/
theorem exists_object (h : Accounted c s)
    (hask : c.variablesBehind s reference = .ok (c', items)) {v : Variable} (hv : v ∈ items)
    (hopen : v.variablesReference ≠ 0) :
    ∃ entries name id, c.entriesBehind s reference = .ok entries ∧
      (name, Value.object id) ∈ entries ∧ c'.target v.variablesReference = .ok (.object id) := by
  have hsound := (h.variablesBehind hask).handles
  obtain ⟨entries, hentries, hsame, -, hlists⟩ := variablesBehind_ok hask
  obtain ⟨⟨name, value⟩, hentry, hshown⟩ := exists_entry hlists hv
  have hrefers := Context.refers_describe s c'.handles name value
  rw [hshown] at hrefers
  obtain ⟨frame, hpaused⟩ := paused_of_entriesBehind hentries
  have hpaused' : c'.stepper.paused = some frame := by
    rw [hsame]
    exact hpaused
  cases value with
  | object id =>
      refine ⟨entries, name, id, hentries, hentry, ?_⟩
      rw [Context.target_eq, hpaused', (hsound.resolve hrefers).1]
  | _ => exact absurd hrefers hopen

/-- What is behind a reference to an object was created after it, and a reference to an object has
an answer. -/
theorem variablesBehind_object {id : ObjectId} (htarget : c.target reference = .ok (.object id)) :
    c.entriesBehind s reference = .ok (Context.objectEntries s id) ∧
      ∃ c' items, c.variablesBehind s reference = .ok (c', items) := by
  have hentries : c.entriesBehind s reference = .ok (Context.objectEntries s id) := by
    rw [Context.entriesBehind, htarget]
  refine ⟨hentries, ?_⟩
  rw [Context.variablesBehind_eq, hentries]
  exact ⟨_, _, rfl⟩

/-- Below a reference, every level has its object, and their numbers rise. -/
theorem Expansion.object {c₀ : Context} {start level : Nat} (h₀ : Accounted c₀ s)
    (h : Expansion s c₀ start level c reference) :
    Accounted c s ∧ (0 < level → ∃ id, c.target reference = .ok (.object id) ∧
      level ≤ id.number + 1 ∧ id.number < s.heap.size) := by
  induction h with
  | here => exact ⟨h₀, fun hlevel => absurd hlevel (Nat.lt_irrefl 0)⟩
  | ask _ hask ih =>
      obtain ⟨hc, hobject⟩ := ih
      have hc' := hc.variablesBehind hask
      obtain ⟨-, -, hsame, hextends, -⟩ := variablesBehind_ok hask
      refine ⟨hc', fun hlevel => ?_⟩
      obtain ⟨id, htarget, hid⟩ := hobject hlevel
      refine ⟨id, Context.Continues.target ⟨?_, hextends⟩ hc.handles hc'.handles htarget, hid⟩
      rw [hsame]
  | @deeper level c c' reference items v _ hask hv hopen ih =>
      obtain ⟨hc, hobject⟩ := ih
      refine ⟨hc.variablesBehind hask, fun _ => ?_⟩
      obtain ⟨entries, name, id, hentries, hentry, htarget⟩ := exists_object hc hask hv hopen
      refine ⟨id, htarget, ?_⟩
      by_cases hlevel : 0 < level
      · obtain ⟨holder, hholder, hrises, -⟩ := hobject hlevel
        rw [(variablesBehind_object hholder).1] at hentries
        obtain rfl := Except.ok.inj hentries
        have hid := objectIn_objectEntries hc.sorted holder _ hentry id rfl
        omega
      · have hid := objectIn_entriesBehind hc.sorted hentries _ hentry id rfl
        omega

end

/-- The objects of a machine are in order, wherever it gets: what it holds is there, and is not the
global object; what a property holds was created after the object with the property, so that
properties lead nowhere back. Hence an expansion has at most as many levels as there are objects,
and on its way every variable that has a reference can be expanded. -/
theorem objects_form_order {c : Context} {s : State} (h : Explored c s) :
    (∀ id, s.Holds id → (s.heap.get? id).isSome ∧ id ≠ Heap.globalId) ∧
      (∀ holder id, s.heap.Points holder id →
        (s.heap.get? id).isSome ∧ id ≠ Heap.globalId ∧ holder.number < id.number) ∧
      (∀ id, ¬Relation.TransGen s.heap.Points id id) ∧
      ∀ start level c' reference, Expansion s c start level c' reference →
        level ≤ s.heap.size ∧
          (0 < level → ∃ c'' items, c'.variablesBehind s reference = .ok (c'', items)) := by
  have haccounted := h.accounted
  have hsorted := haccounted.sorted
  have hne : ∀ {id : ObjectId}, 0 < id.number → id ≠ Heap.globalId := by
    rintro _ hpos rfl
    exact Nat.lt_irrefl 0 hpos
  refine ⟨?_, ?_, fun id => hsorted.acyclic, ?_⟩
  · intro id hid
    obtain ⟨hpos, hlt⟩ := hsorted.holds hid id rfl
    exact ⟨Heap.isSome_get? hlt, hne hpos⟩
  · intro holder id hid
    obtain ⟨hless, hlt⟩ := hsorted.points hid
    exact ⟨Heap.isSome_get? hlt, hne (Nat.zero_lt_of_lt hless), hless⟩
  · intro start level c' reference hexpansion
    obtain ⟨-, hobject⟩ := hexpansion.object haccounted
    by_cases hlevel : 0 < level
    · obtain ⟨id, htarget, hrises, hlt⟩ := hobject hlevel
      exact ⟨by omega, fun _ => (variablesBehind_object htarget).2⟩
    · exact ⟨by omega, fun hpos => absurd hpos hlevel⟩

/-- The way down from a reference along the first variable of each level. -/
private def descend (s : State) : (levels : Nat) → Context → Nat → Option (Context × Nat)
  | 0, c, reference => some (c, reference)
  | levels + 1, c, reference =>
    match c.variablesBehind s reference with
    | .ok (c', v :: _) =>
      if v.variablesReference = 0 then none else descend s levels c' v.variablesReference
    | _ => none

private theorem expansion_descend {s : State} {c₀ c c' : Context} {start level levels : Nat}
    {reference reference' : Nat} (h : Expansion s c₀ start level c reference)
    (hdown : descend s levels c reference = some (c', reference')) :
    Expansion s c₀ start (level + levels) c' reference' := by
  induction levels generalizing level c reference with
  | zero =>
      obtain ⟨rfl, rfl⟩ := Prod.mk.inj (Option.some.inj hdown)
      exact h
  | succ levels ih =>
      rw [descend] at hdown
      split at hdown
      · rename_i next v rest hask
        split at hdown
        · cases hdown
        · rename_i hopen
          rw [Nat.add_comm levels, ← Nat.add_assoc]
          exact ih (h.deeper hask List.mem_cons_self hopen) hdown
      · cases hdown

/-- A global property with an object in an object, expanded in the pause behind its assignment. -/
theorem objects_form_order_nested :
    ∃ program c s c' reference,
      Program.ofSource "main.mod"
        "global o = \x7b\"p\": \x7b\x7d\x7d\nprint \"x\"\n" = .ok program ∧
      Explored c s ∧ c.stepper.paused = some ⟨1⟩ ∧ s.heap.size = 3 ∧
      s.heap.Points ⟨1⟩ ⟨2⟩ ∧ ⟨2⟩ ≠ Heap.globalId ∧
      Expansion s c globalReference 2 c' reference ∧ 2 ≤ s.heap.size ∧
      ∃ c'' items, c'.variablesBehind s reference = .ok (c'', items) := by
  have hcomputed :
      ((Program.ofSource "main.mod"
          "global o = \x7b\"p\": \x7b\x7d\x7d\nprint \"x\"\n").toOption.bind fun program =>
        (secondPause program).bind fun paused =>
          (descend paused.2 2 paused.1 globalReference).map fun _ =>
            (paused.1.stepper.paused, paused.2.heap.size,
              (paused.2.heap.get? ⟨1⟩).map (·.properties))) =
        some (some ⟨1⟩, 3, some [("p", .object ⟨2⟩)]) := by cbv
  obtain ⟨program, hsource, hprogram⟩ := Program.exists_of_ofSource hcomputed
  obtain ⟨⟨d, t⟩, hpause, hprogram⟩ := Option.bind_eq_some_iff.1 hprogram
  obtain ⟨⟨c', reference⟩, hdown, hdata⟩ := Option.map_eq_some_iff.1 hprogram
  simp only [Prod.mk.injEq] at hdata
  obtain ⟨hpaused, hsize, hproperties⟩ := hdata
  obtain ⟨o, ho, hp⟩ := Option.map_eq_some_iff.1 hproperties
  have hexplored := explored_of_secondPause hsource hpause
  have hhere : Expansion t d globalReference 0 d globalReference := .here
  have hexpansion := expansion_descend hhere hdown
  obtain ⟨-, hpoints, -, hexpands⟩ := objects_form_order hexplored
  have hpoint : t.heap.Points ⟨1⟩ ⟨2⟩ := ⟨o, "p", ho, hp ▸ List.mem_cons_self⟩
  obtain ⟨hlevels, hanswer⟩ := hexpands _ _ _ _ hexpansion
  exact ⟨program, d, t, c', reference, hsource, hexplored, hpaused, hsize, hpoint,
    (hpoints _ _ hpoint).2.1, hexpansion, hlevels, hanswer (Nat.succ_pos 1)⟩

end ScriptDebugger.Debug
