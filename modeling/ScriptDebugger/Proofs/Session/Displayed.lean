import Mathlib
import ScriptDebugger.Proofs.Debug.Assigning
import ScriptDebugger.Proofs.Debug.Expansion
import ScriptDebugger.Proofs.Json.InQuotes
import ScriptDebugger.Proofs.Session.Locations
/-!
# Shown texts as new values

A variable is shown as a text, and a session takes a text as the new value of a variable, so that a
text that is confirmed as it was shown should change nothing. The text of null or of a boolean is
the JSON text of it. A string is shown between quotes, as JSON has it, but without escapes: only one
that needs none comes back. With another one the text is refused, or, where a backslash happens to
make an escape with what is behind it, a shorter string is stored.

## Main results

* `Context.held?_of_entry` — a listed entry shows what its binding or property holds.
* `Context.held?_of_ok` — what was assigned is held from then on.
* `Connection.ask_assign` — what a session gets for an assignment that the debugger accepts.
* `shown_text_comes_back_iff` — which shown texts come back, and what becomes of the others.
-/

namespace ScriptDebugger

/-! ## What a variable holds -/

namespace Machine

variable {name : String} {value : Value}

theorem isSome_lookup_iff {entries : List (String × Value)} :
    (lookup name entries).isSome ↔ name ∈ entries.map Prod.fst := by
  rw [lookup, Option.isSome_map, List.find?_isSome, List.mem_map]
  simp only [beq_iff_eq]

/-- The names of what was found are those that it has a value for. -/
theorem mem_names_iff {α : Type} (found : Option α) (entries : α → List (String × Value)) :
    name ∈ (found.map fun a => (entries a).map Prod.fst).getD [] ↔
      (found.bind fun a => lookup name (entries a)).isSome := by
  cases found with
  | none => exact ⟨nofun, nofun⟩
  | some a => exact isSome_lookup_iff.symm

/-- In a list made from names that have values, each name stands with its value. -/
theorem of_mem_listing {names : List String} {value? : String → Option Value}
    (hnames : ∀ n ∈ names, (value? n).isSome)
    (h : (name, value) ∈ names.map fun n => (n, (value? n).getD .undefined)) :
    value? name = some value := by
  obtain ⟨key, hkey, heq⟩ := List.mem_map.1 h
  obtain ⟨rfl, rfl⟩ := Prod.mk.inj heq
  obtain ⟨found, hfound⟩ := Option.isSome_iff_exists.1 (hnames key hkey)
  rw [hfound, Option.getD_some]

end Machine

namespace Debug

open Machine (Heap State Activation Program lookup)
open Wire (Variable)

namespace Context

/-- What the binding or the property of a name holds, behind a reference. -/
def held? {σ : Type} [Engine σ] (c : Context) (engine : σ) (reference : Nat) (name : String) :
    Option Value :=
  match c.target reference with
  | .error _ => none
  | .ok (.object id) => Engine.property? engine id name
  | .ok (.frame index) =>
    match c.findFrame engine index with
    | .error _ => none
    | .ok frame => Engine.binding? engine frame name

/-- Whether a name is the one under which a frame shows its `this`. -/
def IsThis (c : Context) (reference : Nat) (name : String) : Prop :=
  name = "<this>" ∧ ∃ index, c.target reference = .ok (.frame index)

variable {c : Context} {s : State} {reference : Nat} {name : String} {value : Value}

theorem held?_of_object {id : ObjectId} (htarget : c.target reference = .ok (.object id)) :
    c.held? s reference name = Engine.property? s id name := by
  rw [held?, htarget]

theorem held?_of_frame {index : Nat} {frame : FrameId}
    (htarget : c.target reference = .ok (.frame index)) (hframe : c.findFrame s index = .ok frame) :
    c.held? s reference name = Engine.binding? s frame name := by
  rw [held?, htarget]
  simp only [hframe]

theorem property?_of_entry {id : ObjectId} (h : (name, value) ∈ objectEntries s id) :
    Engine.property? s id name = some value := by
  have hnames : ∀ n ∈ Engine.propertyNames s id, (Engine.property? s id n).isSome :=
    fun n hn => (Machine.mem_names_iff (s.heap.get? id) (·.properties)).1 hn
  exact Machine.of_mem_listing hnames h

theorem binding?_of_entry {frame : FrameId} (h : (name, value) ∈ frameEntries s frame)
    (hthis : name ≠ "<this>") : Engine.binding? s frame name = some value := by
  have hnames : ∀ n ∈ Engine.bindingNames s frame, (Engine.binding? s frame n).isSome :=
    fun n hn => (Machine.mem_names_iff (s.activation? frame) (·.bindings)).1 hn
  refine Machine.of_mem_listing hnames ?_
  unfold frameEntries at h
  split at h
  · split at h
    · rcases List.mem_append.1 h with h | h
      · exact h
      · exact absurd (Prod.mk.inj (List.mem_singleton.1 h)).1 hthis
    · exact h
  · exact h

/-- An entry is what its binding or property holds, unless it is the `this` of a frame. -/
theorem held?_of_entry {entries : List (String × Value)}
    (hentries : c.entriesBehind s reference = .ok entries) (hentry : (name, value) ∈ entries)
    (hthis : ¬c.IsThis reference name) : c.held? s reference name = some value := by
  rw [entriesBehind] at hentries
  rcases htarget : c.target reference with e | index | id
  · rw [htarget] at hentries
    cases hentries
  · rw [htarget] at hentries
    cases hframe : c.findFrame s index with
    | error e =>
        simp only [hframe] at hentries
        cases hentries
    | ok frame =>
        simp only [hframe] at hentries
        obtain rfl := Except.ok.inj hentries
        rw [held?_of_frame htarget hframe]
        exact binding?_of_entry hentry fun hname => hthis ⟨hname, index, htarget⟩
  · rw [htarget] at hentries
    obtain rfl := Except.ok.inj hentries
    rw [held?_of_object htarget]
    exact property?_of_entry hentry

end Context

/-! ## Values without parts -/

/-- A document that is null, a boolean or a string, and its value. -/
inductive Scalar : Json → Value → Prop
  | null : Scalar .null .null
  | bool (b : Bool) : Scalar (.bool b) (.bool b)
  | string (text : String) : Scalar (.string text) (.string text)

namespace Scalar

variable {json : Json} {value : Value}

theorem importJson (h : Scalar json value) (heap : Heap) :
    heap.importJson json = (heap, value) := by
  cases h <;> rfl

/-- The wire carries such a document as it is. -/
theorem fits (h : Scalar json value) {reference : Nat} (href : reference < UInt32.size)
    (name : String) : (Wire.HostMessage.setVariable reference name json).Fits := by
  cases h with
  | null => exact ⟨href, rfl, Nat.zero_le _, trivial⟩
  | bool b => exact ⟨href, rfl, .bool b⟩
  | string text => exact ⟨href, rfl, .string text⟩

/-- Showing such a value gives out no reference. -/
theorem exists_describe (h : Scalar json value) {σ : Type} [Engine σ] (engine : σ)
    (handles : Handles) (name : String) :
    ∃ v, Context.describe engine handles name value = (handles, v) ∧ v.Fits := by
  have hzero : 0 < UInt32.size := by decide
  cases h <;> exact ⟨_, rfl, ⟨hzero⟩⟩

end Scalar

namespace Context

variable {c : Context} {s : State} {reference : Nat} {name : String} {json : Json} {value : Value}

/-- What holds something can be assigned to. -/
theorem not_refused_of_held? {old : Value} (hold : c.held? s reference name = some old)
    (e : QueryError) : ¬Refused c s reference name e := by
  intro hrefused
  cases hrefused with
  | lost htarget =>
      rw [held?, htarget] at hold
      cases hold
  | frameless htarget hframe =>
      rw [held?, htarget] at hold
      simp only [hframe] at hold
      cases hold
  | stale htarget hframe hgone =>
      rw [held?_of_frame htarget hframe] at hold
      change (s.activation? _).bind _ = some old at hold
      rw [hgone] at hold
      cases hold
  | unbound htarget hframe ha hname =>
      rw [held?_of_frame htarget hframe, binding?_eq ha] at hold
      exact hname _ (Machine.mem_of_lookup hold) rfl

/-- What was assigned is held from then on. -/
theorem held?_of_ok {t : State} {answer : Context × Variable}
    (hset : c.setVariable s reference name json = (t, .ok answer)) :
    c.held? t reference name = some (importedValue s json) := by
  have hsets := sets_of_eq hset
  generalize hresult : Except.ok answer = result at hsets
  cases hsets with
  | lost | frameless | unbound | unowned => cases hresult
  | @property id o htarget hobject t ht =>
      have hgot : t.heap.get? id = some { o with
          properties := Machine.define name (importedValue s json) o.properties } := by
        rw [ht, Heap.get?_defineProperty_self, hobject]
        rfl
      rw [held?_of_object htarget, property?_eq hgot, Machine.lookup_define_self]
  | @binding index frame a bindings htarget hframe ha hbindings t ht =>
      have hgot : t.activation? frame = some { a with bindings } := by
        rw [ht]
        exact State.find?_rebound ha
      have hfound : c.findFrame t index = .ok frame :=
        (findFrame_rebound (by rw [ht]; rfl) (by rw [ht]) index).trans hframe
      rw [held?_of_frame htarget hfound, binding?_eq hgot, Machine.lookup_update?_self hbindings]

/-- The value of a document without parts is stored as it is, where there was a value before, and
the debugger is left as it was. -/
theorem setVariable_scalar (h : Accounted c s) (hscalar : Scalar json value) {old : Value}
    (hold : c.held? s reference name = some old) :
    ∃ t v, c.setVariable s reference name json = (t, .ok (c, v)) ∧ v.Fits ∧
      c.held? t reference name = some value := by
  have hvalue : importedValue s json = value := congrArg Prod.snd (hscalar.importJson s.heap)
  rcases hset : c.setVariable s reference name json with ⟨t, e | ⟨c', v⟩⟩
  · exact absurd ((error_iff_refused h).1 ⟨t, hset⟩) (not_refused_of_held? hold e)
  · have hheld := held?_of_ok hset
    obtain ⟨hdebugger, hshown, -⟩ := answered_of_ok h hset
    obtain ⟨w, hdescribed, hw⟩ := hscalar.exists_describe t c.handles name
    rw [hvalue, hdescribed] at hshown
    obtain ⟨hhandles, rfl⟩ := Prod.mk.inj hshown
    obtain rfl : c' = c := by rw [hdebugger, ← hhandles]
    exact ⟨t, w, rfl, hw, hvalue ▸ hheld⟩

end Context

end Debug

/-! ## The session -/

namespace Session

open Debug (Agent Context Explored Scalar)
open Machine (Program State)
open Wire (DebuggerMessage HostMessage Variable)

namespace Connection

/-- Asks for a variable to be given the value that a text writes, if it writes one. -/
def setVariable {π : Type} [Peer π] (fuel : Nat) (c : Connection π) (reference : Nat)
    (name literal : String) : Option (Connection π × Except Failure Variable) :=
  match assignText reference name literal with
  | .error failure => some (c, .error failure)
  | .ok q => c.ask fuel q

/-- What the binding or the property of a name holds at the agent. -/
def held? {σ : Type} [Engine σ] (c : Connection (Agent σ)) (reference : Nat) (name : String) :
    Option Value :=
  c.peer.context.held? c.peer.engine reference name

variable {fuel : Nat} {c : Connection (Agent State)} {reference : Nat} {name : String}

/-- An assignment that the debugger accepts has its outcome, and is carried out. -/
theorem ask_assign (h : c.IsReady) {json : Json}
    (hfits : (HostMessage.setVariable reference name json).Fits) {context : Context}
    {engine : State} {v : Variable}
    (hset : c.peer.context.setVariable c.peer.engine reference name json =
      (engine, .ok (context, v)))
    (hv : v.Fits) (hwritable : c.Writable fuel (assign reference name json)) :
    ∃ c', c.ask fuel (assign reference name json) = some (c', .ok v) ∧
      c'.peer.context = context ∧ c'.peer.engine = engine := by
  have hperform : Agent.perform c.peer.context c.peer.engine (.setVariable reference name json) =
      (context, engine, some (.variableSet v), .serve) := by
    simp only [Agent.perform, hset]
  obtain ⟨⟨c', outcome⟩, hask⟩ := exists_ask_of_served h hfits hperform hwritable
  obtain ⟨-, hpeer, reply, hreply, rfl⟩ := ask_of_served h rfl hfits hperform hask
  obtain rfl : reply = .variableSet v :=
    Option.some.inj ((Wire.decode?_of_heard? hreply).symm.trans
      (DebuggerMessage.decode?_payload (m := .variableSet v) hv))
  exact ⟨c', hask, congrArg Agent.context hpeer, congrArg Agent.engine hpeer⟩

/-- A text of a value without parts is accepted, and the value is stored, where there was a value
before. -/
theorem setVariable_scalar (h : c.IsReady)
    (haccounted : Debug.Accounted c.peer.context c.peer.engine) (href : reference < UInt32.size)
    {old : Value} (hold : c.held? reference name = some old)
    {literal : String} {json : Json} {value : Value} (hread : Json.read? literal = some json)
    (hscalar : Scalar json value)
    (hwritable : ∀ q, assignText reference name literal = .ok q → c.Writable fuel q) :
    ∃ c' v, c.setVariable fuel reference name literal = some (c', .ok v) ∧
      c'.held? reference name = some value := by
  have hq : assignText reference name literal = .ok (assign reference name json) := by
    rw [assignText, hread]
  obtain ⟨engine, v, hset, hv, hheld⟩ := Context.setVariable_scalar haccounted hscalar hold
  obtain ⟨c', hask, hcontext, hengine⟩ :=
    ask_assign h (hscalar.fits href name) hset hv (hwritable _ hq)
  refine ⟨c', v, ?_, ?_⟩
  · rw [setVariable, hq]
    exact hask
  · rw [held?, hcontext, hengine]
    exact hheld

/-- Whether the shown text of a variable is accepted as its new value, and what it holds stays. -/
def ComesBack (fuel : Nat) (c : Connection (Agent State)) (reference : Nat) (v : Variable) : Prop :=
  ∃ c' w, c.setVariable fuel reference v.name v.value = some (c', .ok w) ∧
    c'.held? reference v.name = c.held? reference v.name

/-- What becomes of a shown text that does not come back. -/
inductive Fails (fuel : Nat) (c : Connection (Agent State)) (reference : Nat) (v : Variable)
    (text : String) : Prop
  /-- It is refused. -/
  | refused (h : c.setVariable fuel reference v.name v.value =
      some (c, .error (.invalidLiteral v.value)))
  /-- It is accepted, and a shorter string is stored. -/
  | shortened {c' : Connection (Agent State)} {w : Variable} {shorter : String}
    (h : c.setVariable fuel reference v.name v.value = some (c', .ok w))
    (hheld : c'.held? reference v.name = some (.string shorter))
    (hless : shorter.length < text.length)

theorem Fails.not_comesBack {v : Variable} {text : String} (h : c.Fails fuel reference v text)
    (hheld : c.held? reference v.name = some (.string text)) : ¬c.ComesBack fuel reference v := by
  rintro ⟨c', w, hset, hkept⟩
  cases h with
  | refused h => cases h.symm.trans hset
  | shortened h hshorter hless =>
      obtain ⟨rfl, -⟩ := Prod.mk.inj (Option.some.inj (h.symm.trans hset))
      obtain rfl := Value.string.inj (Option.some.inj (hshorter.symm.trans (hkept.trans hheld)))
      exact Nat.lt_irrefl _ hless

section

variable (h : c.IsReady) (haccounted : Debug.Accounted c.peer.context c.peer.engine)
  (href : reference < UInt32.size) {v : Variable} {value : Value}
  (hheld : c.held? reference v.name = some value)
  (hwritable : ∀ q, assignText reference v.name v.value = .ok q → c.Writable fuel q)

include h haccounted href hheld hwritable

/-- A variable whose shown text is read as its value comes back. -/
theorem comesBack_of_read? {json : Json} (hread : Json.read? v.value = some json)
    (hscalar : Scalar json value) : c.ComesBack fuel reference v := by
  obtain ⟨c', w, hset, hstored⟩ :=
    setVariable_scalar h haccounted href hheld hread hscalar hwritable
  exact ⟨c', w, hset, hstored.trans hheld.symm⟩

/-- A string with a character that needs an escape does not come back. -/
theorem fails_of_not_plain {text : String} (hshown : v.value = "\"" ++ text ++ "\"")
    (hescape : ¬∀ ch ∈ text.toList, Json.IsPlain ch) : c.Fails fuel reference v text := by
  cases hread : Json.read? v.value with
  | none =>
      refine .refused ?_
      rw [setVariable, assignText, hread]
  | some json =>
      rw [hshown] at hread
      obtain ⟨shorter, rfl, hless | ⟨-, hplain⟩⟩ := Json.read?_inQuotes hread
      · rw [← hshown] at hread
        obtain ⟨c', w, hset, hstored⟩ :=
          setVariable_scalar h haccounted href hheld hread (.string shorter) hwritable
        exact .shortened hset hstored hless
      · exact absurd hplain hescape

end

end Connection

/-- A variable that is listed in a pause, other than the `this` of a frame, shows what its binding
or its property holds. The shown text of null or of a boolean is accepted as a new value and changes
nothing; so is that of a string, if no character of the string needs an escape. The text of any
other string is refused, or a shorter string is stored. -/
theorem shown_text_comes_back_iff {d : Context} {c : Connection (Agent State)}
    (h : Explored d c.peer.engine) (hready : c.IsReady) {reference : Nat}
    (href : reference < UInt32.size) {items : List Variable}
    (hlisted : d.variablesBehind c.peer.engine reference = .ok (c.peer.context, items))
    {v : Variable} (hv : v ∈ items) (hthis : ¬c.peer.context.IsThis reference v.name)
    {fuel : Nat}
    (hwritable : ∀ q, assignText reference v.name v.value = .ok q → c.Writable fuel q) :
    ∃ value, c.held? reference v.name = some value ∧
      (Context.describe c.peer.engine c.peer.context.handles v.name value).2 = v ∧
      (value = .null ∨ (∃ b, value = .bool b) → c.ComesBack fuel reference v) ∧
      ∀ text, value = .string text →
        (c.ComesBack fuel reference v ↔ ∀ ch ∈ text.toList, Json.IsPlain ch) ∧
        (¬(∀ ch ∈ text.toList, Json.IsPlain ch) → c.Fails fuel reference v text) := by
  have haccounted := h.accounted.variablesBehind hlisted
  obtain ⟨entries, hentries, hsame, hextends, hlists⟩ := Debug.variablesBehind_ok hlisted
  obtain ⟨⟨name, value⟩, hentry, hshown⟩ := Debug.exists_entry hlists hv
  -- the question gave out references, so what was behind the reference is behind it still
  have hcontinues : d.Continues c.peer.context := ⟨by rw [hsame], hextends⟩
  have hbehind := hcontinues.entriesBehind h.accounted.handles haccounted.handles hentries
  obtain rfl : (Context.describe c.peer.engine c.peer.context.handles name value).2 = v := by
    rw [hshown]
  have hheld : c.held? reference name = some value := Context.held?_of_entry hbehind hentry hthis
  refine ⟨value, hheld, rfl, ?_, ?_⟩
  · rintro (rfl | ⟨b, rfl⟩)
    · have hread : Json.read? "null" = some .null := by cbv
      exact Connection.comesBack_of_read? hready haccounted href hheld hwritable hread .null
    · have hread : Json.read? (if b then "true" else "false") = some (.bool b) := by
        cases b <;> cbv
      exact Connection.comesBack_of_read? hready haccounted href hheld hwritable hread (.bool b)
  · rintro text rfl
    have hfails : ¬(∀ ch ∈ text.toList, Json.IsPlain ch) → c.Fails fuel reference _ text :=
      Connection.fails_of_not_plain hready haccounted href hheld hwritable rfl
    refine ⟨⟨fun hback => ?_, fun hplain => ?_⟩, hfails⟩
    · by_contra hescape
      exact (hfails hescape).not_comesBack hheld hback
    · exact Connection.comesBack_of_read? hready haccounted href hheld hwritable
        (Json.read?_inQuotes_plain hplain) (.string text)

/-! ## A shown string -/

/-- What is listed behind the frame of a program's second pause, what one of the names holds, the
string that a text writes, and the answer to assigning it to the name. -/
private def secondListing (source name literal : String) :
    Option (List Variable × Option Value × Option String × Except Debug.QueryError Variable) :=
  (Program.ofSource "main.mod" source).toOption.bind fun program =>
    (Debug.secondPause program).bind fun paused =>
      (paused.1.variablesBehind paused.2 1).toOption.bind fun listed =>
        (Json.read? literal).map fun json =>
          (listed.2, listed.1.held? paused.2 1 name, json.string?,
            (listed.1.setVariable paused.2 1 name json).2.map (·.2))

/-- A session in the second pause of a program, which has just listed the variables of the frame. -/
private theorem exists_listing {source name literal text : String} {items : List Variable}
    {value : Value} {w : Variable}
    (hcomputed : secondListing source name literal = some (items, some value, some text, .ok w))
    (hw : w.Fits)
    (hmessage : (HostMessage.setVariable 1 name (.string text)).encode.length < UInt64.size)
    (hreply : (DebuggerMessage.variableSet w).encode.length < UInt64.size) :
    ∃ program d, ∃ c : Connection (Agent State),
      Program.ofSource "main.mod" source = .ok program ∧ Explored d c.peer.engine ∧ c.IsReady ∧
      d.variablesBehind c.peer.engine 1 = .ok (c.peer.context, items) ∧
      c.held? 1 name = some value ∧ Json.read? literal = some (.string text) ∧
      ∀ fuel q, assignText 1 name literal = .ok q → c.Writable fuel q := by
  obtain ⟨program, hsource, hprogram⟩ := Program.exists_of_ofSource hcomputed
  obtain ⟨⟨d, t⟩, hpause, hprogram⟩ := Option.bind_eq_some_iff.1 hprogram
  obtain ⟨⟨context, listed⟩, hlisted, hprogram⟩ := Option.bind_eq_some_iff.1 hprogram
  obtain ⟨json, hread, hdata⟩ := Option.map_eq_some_iff.1 hprogram
  simp only [Prod.mk.injEq] at hdata
  obtain ⟨rfl, hheld, hstring, hanswer⟩ := hdata
  obtain rfl : json = .string text := by
    cases json <;> cases hstring
    rfl
  have hlisted : d.variablesBehind t 1 = .ok (context, listed) := by
    cases hresult : d.variablesBehind t 1 with
    | error e =>
        rw [hresult] at hlisted
        cases hlisted
    | ok answer =>
        rw [hresult] at hlisted
        rw [Option.some.inj hlisted]
  let c : Connection (Agent State) := { peer := ⟨t, context, {}, .paused, true, none⟩ }
  have hready : c.IsReady := ⟨⟨rfl, nofun, rfl, rfl⟩, rfl, rfl⟩
  refine ⟨program, d, c, hsource, Debug.explored_of_secondPause hsource hpause, hready, hlisted,
    hheld, hread, fun fuel q hq => ?_⟩
  rw [assignText, hread] at hq
  obtain rfl := Except.ok.inj hq
  rcases hset : context.setVariable t 1 name (.string text) with ⟨engine, e | ⟨after, v⟩⟩
  · rw [hset] at hanswer
    cases hanswer
  · rw [hset] at hanswer
    obtain rfl : v = w := Except.ok.inj hanswer
    have hperform : Agent.perform c.peer.context c.peer.engine
        (.setVariable 1 name (.string text)) = (after, engine, some (.variableSet v), .serve) := by
      simp only [Agent.perform, c, hset]
    exact .of_receive rfl hmessage (Agent.receive_of_served hready.peer hperform fuel) hw hreply

/-- A string that needs no escape is shown, and comes back. -/
theorem shown_text_comes_back_iff_plain :
    ∃ program d, ∃ c : Connection (Agent State), ∃ v items,
      Program.ofSource "main.mod" "let s = \"x\"\nprint s\n" = .ok program ∧
      Explored d c.peer.engine ∧ c.IsReady ∧
      d.variablesBehind c.peer.engine 1 = .ok (c.peer.context, v :: items) ∧
      v = ⟨"s", "\"x\"", "String", 0⟩ ∧ ¬c.peer.context.IsThis 1 "s" ∧
      (∀ q, assignText 1 "s" "\"x\"" = .ok q → c.Writable 10 q) ∧
      c.held? 1 "s" = some (.string "x") ∧ c.ComesBack 10 1 v := by
  have hcomputed : secondListing "let s = \"x\"\nprint s\n" "s" "\"x\"" =
      some ([⟨"s", "\"x\"", "String", 0⟩, ⟨"<this>", "[object global]", "global", 4096⟩],
        some (.string "x"), some "x", .ok ⟨"s", "\"x\"", "String", 0⟩) := by cbv
  obtain ⟨program, d, c, hsource, hexplored, hready, hlisted, hheld, -, hwritable⟩ :=
    exists_listing hcomputed ⟨by decide⟩ (by decide +kernel) (by decide +kernel)
  have hthis : ¬c.peer.context.IsThis 1 "s" := fun h => absurd h.1 (by decide)
  obtain ⟨value, hvalue, -, -, hstring⟩ := shown_text_comes_back_iff hexplored hready (by decide)
    hlisted List.mem_cons_self hthis (hwritable 10)
  obtain rfl := Option.some.inj (hheld.symm.trans hvalue)
  have hplain : ∀ ch ∈ "x".toList, Json.IsPlain ch := by simp [Json.IsPlain]
  exact ⟨program, d, c, _, _, hsource, hexplored, hready, hlisted, rfl, hthis, hwritable 10, hheld,
    (hstring "x" rfl).1.2 hplain⟩

/-- A path with a backslash is shown. Its text is accepted as the new value, and the backslash and
the letter behind it become a line break. -/
theorem shown_text_changes :
    ∃ program d, ∃ c c' : Connection (Agent State), ∃ w,
      Program.ofSource "main.mod" "let s = \"C:\\\\new\"\nprint s\n" = .ok program ∧
      Explored d c.peer.engine ∧ c.IsReady ∧
      d.variablesBehind c.peer.engine 1 = .ok (c.peer.context,
        [⟨"s", "\"C:\\new\"", "String", 0⟩, ⟨"<this>", "[object global]", "global", 4096⟩]) ∧
      c.held? 1 "s" = some (.string "C:\\new") ∧
      c.setVariable 10 1 "s" "\"C:\\new\"" = some (c', .ok w) ∧
      c'.held? 1 "s" = some (.string "C:\new") := by
  have hcomputed : secondListing "let s = \"C:\\\\new\"\nprint s\n" "s" "\"C:\\new\"" =
      some ([⟨"s", "\"C:\\new\"", "String", 0⟩, ⟨"<this>", "[object global]", "global", 4096⟩],
        some (.string "C:\\new"), some "C:\new", .ok ⟨"s", "\"C:\new\"", "String", 0⟩) := by
    cbv
  obtain ⟨program, d, c, hsource, hexplored, hready, hlisted, hheld, hread, hwritable⟩ :=
    exists_listing hcomputed ⟨by decide⟩ (by decide +kernel) (by decide +kernel)
  obtain ⟨c', w, hset, hstored⟩ := Connection.setVariable_scalar hready
    (hexplored.accounted.variablesBehind hlisted) (by decide) hheld hread (.string _)
    (hwritable 10)
  exact ⟨program, d, c, c', w, hsource, hexplored, hready, hlisted, hheld, hset, hstored⟩

end Session

end ScriptDebugger
