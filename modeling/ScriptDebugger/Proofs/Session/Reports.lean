import ScriptDebugger.Proofs.Session.Asking
/-!
# What is heard of a list

The agent tells the places for breakpoints and the frames of the stack as lists of records. A number
that is no word is written with more digits than an integer of the wire has, and no field takes what
it reads as. So what a session hears of such a list, if anything, is the list that the agent sent,
and all its numbers are words.

## Main results

* `DebuggerMessage.heard?_breakpointsForLine`, `DebuggerMessage.heard?_stack` — what is heard.
-/

namespace ScriptDebugger

namespace Json

/-- The values of slots, as they read. -/
abbrev Reread (values values' : List (Option Json)) : Prop :=
  List.Forall₂ (Option.Rel fun j j' => reread j = some j') values values'

theorem Reread.of_some {j : Json} {values values' : List (Option Json)}
    (h : Reread (some j :: values) values') :
    ∃ j' rest, reread j = some j' ∧ Reread values rest ∧ values' = some j' :: rest := by
  obtain ⟨value, rest, hvalue, hrest, rfl⟩ := List.forall₂_cons_left_iff.1 h
  cases hvalue with
  | some hj => exact ⟨_, rest, hj, hrest, rfl⟩

theorem Reread.of_nil {values' : List (Option Json)} (h : Reread [] values') : values' = [] :=
  List.forall₂_nil_left_iff.1 h

/-- What the members of a written record are reread as: the same slots, each with its value as it
reads. -/
theorem slots_of_rereadMembers {slots : List (String × Option Json)}
    {members : List (String × Json)} (h : rereadMembers (ofSlots slots) = some members) :
    ∃ slots', members = ofSlots slots' ∧ slots'.map Prod.fst = slots.map Prod.fst ∧
      Reread (slots.map Prod.snd) (slots'.map Prod.snd) := by
  induction slots generalizing members with
  | nil =>
      obtain rfl := Option.some.inj h
      exact ⟨[], rfl, rfl, .nil⟩
  | cons slot slots ih =>
      obtain ⟨name, value⟩ := slot
      cases value with
      | none =>
          obtain ⟨slots', rfl, hnames, hvalues⟩ := ih h
          exact ⟨(name, none) :: slots', rfl, congrArg (name :: ·) hnames, .cons .none hvalues⟩
      | some j =>
          obtain ⟨j', hj, h⟩ := Option.bind_eq_some_iff.1 h
          obtain ⟨rest, hrest, rfl⟩ := Option.map_eq_some_iff.1 h
          obtain ⟨slots', rfl, hnames, hvalues⟩ := ih hrest
          exact ⟨(name, some j') :: slots', rfl, congrArg (name :: ·) hnames,
            .cons (.some hj) hvalues⟩

/-- The fields of a written record are its values as they read. -/
theorem fields?_of_reread (slots : List (String × Option Json)) (names : List String)
    (hnames : slots.map Prod.fst = names) (hnodup : names.Nodup) {j : Json}
    (h : reread (.object (ofSlots slots)) = some j) :
    ∃ values, j.fields? names = some values ∧ Reread (slots.map Prod.snd) values := by
  obtain ⟨members, hmembers, rfl⟩ := Option.map_eq_some_iff.1 h
  obtain ⟨slots', rfl, hsame, hvalues⟩ := slots_of_rereadMembers hmembers
  exact ⟨_, fields?_ofSlots slots' (hsame.trans hnames) hnodup, hvalues⟩

/-- What is read of every item of a list is read of the list. -/
theorem forall_of_list? {α : Type} {read : Json → Option α} {P : α → Prop}
    (hread : ∀ j a, read j = some a → P a) {j : Json} {items : List α}
    (h : list? read j = some items) : ∀ a ∈ items, P a := by
  unfold list? at h
  split at h
  · rename_i written
    induction written generalizing items with
    | nil =>
        obtain rfl := Option.some.inj h
        exact List.forall_mem_nil P
    | cons k written ih =>
        rw [List.mapM_cons] at h
        obtain ⟨a, ha, h⟩ := Option.bind_eq_some_iff.1 h
        obtain ⟨others, hothers, h⟩ := Option.bind_eq_some_iff.1 h
        obtain rfl := Option.some.inj h
        exact List.forall_mem_cons.2 ⟨hread k a ha, ih hothers⟩
  · cases h

/-- Of a field that may be missing nothing is read but its value, if no value reads as null. -/
theorem ReadsOnly.optional {α : Type} {read : Json → Option α} {write : α → Json}
    (h : ReadsOnly read write) (hnull : ∀ a, reread (write a) ≠ some .null)
    {value found : Option α} {slot : Option Json}
    (hslot : Option.Rel (fun j j' => reread j = some j') (value.map write) slot)
    (hfound : optional? read slot = some found) : found = value := by
  cases value with
  | none =>
      cases hslot
      exact (Option.some.inj hfound).symm
  | some a =>
      rw [Option.map_some] at hslot
      generalize hwritten : write a = written at hslot
      cases hslot with
      | @some _ j hj =>
          subst hwritten
          rw [optional?] at hfound
          · obtain ⟨b, hb, rfl⟩ := Option.map_eq_some_iff.1 hfound
            rw [h hj hb]
          · rintro rfl
            exact hnull a hj

end Json

namespace Wire

open Json (ReadsOnly ofSlots)

/-! ## Records -/

theorem readsOnly_source : ReadsOnly source? sourceJson := by
  intro path j read hj hread
  obtain ⟨values, hfields, hvalues⟩ :=
    Json.fields?_of_reread [("path", some (.string path))] ["path"] rfl (by decide) hj
  obtain ⟨value, rest, hvalue, hnil, rfl⟩ := Json.Reread.of_some hvalues
  obtain rfl := hnil.of_nil
  rw [source?, hfields] at hread
  exact Json.readsOnly_string hvalue hread

theorem reread_sourceJson_ne (path : String) : (sourceJson path).reread ≠ some .null := by
  intro h
  rw [sourceJson, Json.reread] at h
  obtain ⟨members, -, hnull⟩ := Option.map_eq_some_iff.1 h
  cases hnull

theorem readsOnly_location : ReadsOnly location? locationJson := by
  intro l j read hj hread
  obtain ⟨values, hfields, hvalues⟩ := Json.fields?_of_reread
    [("line", some (.ofNat l.line)), ("column", some (.ofNat l.column))] ["line", "column"] rfl
    (by decide) hj
  obtain ⟨line, rest, hline, hrest, rfl⟩ := Json.Reread.of_some hvalues
  obtain ⟨column, rest, hcolumn, hnil, rfl⟩ := Json.Reread.of_some hrest
  obtain rfl := hnil.of_nil
  rw [location?, hfields] at hread
  obtain ⟨m, hm, hread⟩ := Option.bind_eq_some_iff.1 hread
  obtain ⟨n, hn, hread⟩ := Option.bind_eq_some_iff.1 hread
  obtain rfl := Option.some.inj hread
  rw [Json.readsOnly_nat32 hline hm, Json.readsOnly_nat32 hcolumn hn]

theorem fits_of_location? {j : Json} {l : Location} (h : location? j = some l) : l.Fits := by
  unfold location? at h
  split at h
  · obtain ⟨m, hm, h⟩ := Option.bind_eq_some_iff.1 h
    obtain ⟨n, hn, h⟩ := Option.bind_eq_some_iff.1 h
    obtain rfl := Option.some.inj h
    exact ⟨Json.lt_of_nat32? hm, Json.lt_of_nat32? hn⟩
  · cases h

theorem readsOnly_frame : ReadsOnly StackFrame.ofJson? StackFrame.toJson := by
  intro f j read hj hread
  rw [StackFrame.toJson_eq] at hj
  obtain ⟨values, hfields, hvalues⟩ := Json.fields?_of_reread f.slots
    ["id", "name", "source", "line", "column"] rfl (by decide) hj
  obtain ⟨id, behindId, hid, hbehindId, rfl⟩ := Json.Reread.of_some hvalues
  obtain ⟨name, behindName, hname, hbehindName, rfl⟩ := Json.Reread.of_some hbehindId
  obtain ⟨source, places, hsource, hplaces, rfl⟩ := List.forall₂_cons_left_iff.1 hbehindName
  obtain ⟨line, rest, hline, hrest, rfl⟩ := Json.Reread.of_some hplaces
  obtain ⟨column, rest, hcolumn, hnil, rfl⟩ := Json.Reread.of_some hrest
  obtain rfl := hnil.of_nil
  rw [StackFrame.ofJson?, hfields] at hread
  simp only [Option.bind_eq_bind, Option.bind_eq_some_iff, Option.pure_def,
    Option.some.injEq] at hread
  obtain ⟨i, hi, s, hs, p, hp, m, hm, n, hn, rfl⟩ := hread
  rw [Json.readsOnly_nat32 hid hi, Json.readsOnly_string hname hs,
    readsOnly_source.optional reread_sourceJson_ne hsource hp, Json.readsOnly_nat32 hline hm,
    Json.readsOnly_nat32 hcolumn hn]

theorem StackFrame.fits_of_ofJson? {j : Json} {f : StackFrame} (h : ofJson? j = some f) :
    f.Fits := by
  unfold ofJson? at h
  split at h
  · simp only [Option.bind_eq_bind, Option.bind_eq_some_iff, Option.pure_def,
      Option.some.injEq] at h
    obtain ⟨i, hi, -, -, -, -, m, hm, n, hn, rfl⟩ := h
    exact ⟨Json.lt_of_nat32? hi, Json.lt_of_nat32? hm, Json.lt_of_nat32? hn⟩
  · cases h

/-! ## Lists -/

namespace DebuggerMessage

/-- What is heard of a message comes from its fields as they read. -/
theorem ofKind?_of_heard? {m reply : DebuggerMessage} (h : m.heard? = some reply) :
    ∃ fields', Json.rereadMembers m.fields = some fields' ∧
      ofKind? m.kind (.object fields') = some reply := by
  obtain ⟨j, hjson, hread⟩ := Option.bind_eq_some_iff.1 (decode?_of_heard? h)
  obtain ⟨fields', hfields, hsplit⟩ := splitKind?_of_jsonOfBytes? (fields_ne_type m) hjson
  rw [ofJson?, hsplit, Option.bind_some] at hread
  exact ⟨fields', hfields, hread⟩

/-- Of a message whose one field is a list, only that list is heard. -/
theorem eq_of_list? {α : Type} {read : Json → Option α} {write : α → Json}
    (h : ReadsOnly read write) (name : String) {items : List α} {fields' : List (String × Json)}
    (hfields : Json.rereadMembers [(name, .array (items.map write))] = some fields') :
    ∃ j, (Json.object fields').fields? [name] = some [some j] ∧
      ∀ found, Json.list? read j = some found → found = items := by
  have hobject := congrArg (Option.map Json.object) hfields
  obtain ⟨values, hvalues, hreread⟩ := Json.fields?_of_reread
    [(name, some (.array (items.map write)))] [name] rfl (List.nodup_singleton name) hobject
  obtain ⟨j, rest, hj, hnil, rfl⟩ := Json.Reread.of_some hreread
  obtain rfl := hnil.of_nil
  exact ⟨j, hvalues, fun found => h.list hj⟩

/-- What is heard of places for breakpoints, if anything, is these places. -/
theorem heard?_breakpointsForLine {places : List Location} {reply : DebuggerMessage}
    (h : (breakpointsForLine places).heard? = some reply) :
    reply = .breakpointsForLine places ∧ ∀ l ∈ places, l.Fits := by
  obtain ⟨fields', hfields, hread⟩ := ofKind?_of_heard? h
  obtain ⟨j, hj, hsame⟩ := eq_of_list? readsOnly_location "locations" hfields
  simp only [kind, ofKind?, hj] at hread
  obtain ⟨found, hfound, rfl⟩ := Option.map_eq_some_iff.1 hread
  obtain rfl := hsame found hfound
  exact ⟨rfl, Json.forall_of_list? (fun _ _ => fits_of_location?) hfound⟩

/-- What is heard of frames, if anything, is these frames. -/
theorem heard?_stack {frames : List StackFrame} {reply : DebuggerMessage}
    (h : (stack frames).heard? = some reply) :
    reply = .stack frames ∧ ∀ f ∈ frames, f.Fits := by
  obtain ⟨fields', hfields, hread⟩ := ofKind?_of_heard? h
  obtain ⟨j, hj, hsame⟩ := eq_of_list? readsOnly_frame "frames" hfields
  simp only [kind, ofKind?, hj] at hread
  obtain ⟨found, hfound, rfl⟩ := Option.map_eq_some_iff.1 hread
  obtain rfl := hsame found hfound
  exact ⟨rfl, Json.forall_of_list? (fun _ _ => StackFrame.fits_of_ofJson?) hfound⟩

end DebuggerMessage

end Wire

end ScriptDebugger
