import ScriptDebugger.Proofs.Adapter.Opening
/-!
# Replacing the breakpoints of a file

A request to set breakpoints names a file by a path. The agent knows the file by its path below the
workspace, with forward slashes, and the path of the request is cut down to that before the agent
sees it. The server keeps the numbers of the breakpoints under the path as the request spells it.

A request removes the breakpoints that stand under its spelling and sets those that it asks for, as
far as statements start there. So where a file is always spelled alike, its breakpoints are exactly
those of the latest request for it, and under another spelling breakpoints are left that no request
for the file asks for any more.

## Main results

* `Placing`, `setAll_inv`, `removeAll_inv` — what setting and removing breakpoints comes to.
* `tracked_handle` — what a request keeps.
* `setBreakpoints_replaces` — what a request makes of the breakpoints of the program.
* `other_spelling_keeps_breakpoint` — a breakpoint that is left under another spelling.
-/

namespace ScriptDebugger

open Debug (Agent Breakpoint Coherent)
open Machine (State)

/-! ## Places -/

namespace Debug

variable {b : Breakpoints} {s : State}

/-- Where the breakpoint of a number is installed. -/
def Breakpoint.place (p : Breakpoint) : UnitId × Nat := (p.unit, p.offset)

/-- The machine has breakpoints exactly where the tables hold one. -/
theorem Coherent.mem_breakpoints_iff (h : Coherent b s) (place : UnitId × Nat) :
    place ∈ s.breakpoints ↔ ∃ p ∈ b.points, p.place = place := by
  rw [h.places]
  constructor
  · intro hplace
    obtain ⟨⟨place, id⟩, hentry, rfl⟩ := List.mem_map.1 hplace
    exact ⟨_, (h.inverse id _ _).1 hentry, rfl⟩
  · rintro ⟨⟨id, unit, offset⟩, hp, rfl⟩
    exact List.mem_map.2 ⟨_, (h.inverse id unit offset).2 hp, rfl⟩

/-- There is one breakpoint at a place. -/
theorem Coherent.eq_of_place (h : Coherent b s) {p q : Breakpoint} (hp : p ∈ b.points)
    (hq : q ∈ b.points) (hplace : p.place = q.place) : p = q := by
  obtain ⟨id, unit, offset⟩ := p
  obtain ⟨other, unit', offset'⟩ := q
  obtain ⟨rfl, rfl⟩ := Prod.mk.inj hplace
  have hsame :=
    List.inj_on_of_nodup_map h.keyed ((h.inverse _ _ _).2 hp) ((h.inverse _ _ _).2 hq) rfl
  obtain ⟨-, rfl⟩ := Prod.mk.inj hsame
  rfl

/-- Places are found in the file of the program alone. -/
theorem Coherent.url_of_resolve (h : Coherent b s) {path : String} {line column : Nat}
    {k : Candidate} (hresolve : b.resolve s path line column = some k) : path = s.program.url := by
  obtain ⟨-, hfiles⟩ := h.of_resolve hresolve
  by_contra hother
  have hunits : b.unitsOf? path = none := by
    simp [Breakpoints.unitsOf?, hfiles, Ne.symm hother]
  rw [Breakpoints.resolve, Breakpoints.candidates, hunits] at hresolve
  cases hresolve

end Debug

/-! ## Arguments -/

namespace Adapter

open Session (Connection Failure Frontier PlacedBreakpoint)

/-- The line and the column of a breakpoint that is asked for are words. -/
theorem askedBreakpoint_lt {j : Json} {asked : Nat × Option Nat}
    (h : askedBreakpoint j = .ok asked) :
    asked.1 < UInt32.size ∧ ∀ n ∈ asked.2, n < UInt32.size := by
  unfold askedBreakpoint at h
  cases hline : number? j "line" with
  | error e => simp [hline, bind, Except.bind] at h
  | ok line =>
      cases line with
      | none => simp [hline, bind, Except.bind] at h
      | some line =>
          cases hcolumn : number? j "column" with
          | error e => simp [hline, hcolumn, bind, Except.bind] at h
          | ok column =>
              simp only [hline, hcolumn, bind, Except.bind] at h
              obtain rfl := Except.ok.inj h
              refine ⟨number?_lt hline, fun n hn => ?_⟩
              obtain rfl := Option.mem_def.1 hn
              exact number?_lt hcolumn

theorem of_mapM_ok {α β ε : Type} {f : α → Except ε β} {items : List α} {results : List β}
    (h : items.mapM f = .ok results) : ∀ b ∈ results, ∃ a ∈ items, f a = .ok b := by
  induction items generalizing results with
  | nil =>
      obtain rfl := Except.ok.inj h
      simp
  | cons a items ih =>
      rw [List.mapM_cons] at h
      cases ha : f a with
      | error e => simp [ha, bind, Except.bind] at h
      | ok first =>
          cases hrest : items.mapM f with
          | error e => simp [ha, hrest, bind, Except.bind] at h
          | ok rest =>
              simp only [ha, hrest, bind, Except.bind] at h
              obtain rfl := Except.ok.inj h
              intro b hb
              rcases List.mem_cons.1 hb with rfl | hb
              · exact ⟨a, List.mem_cons_self, ha⟩
              · obtain ⟨c, hc, hbc⟩ := ih hrest b hb
                exact ⟨c, List.mem_cons_of_mem a hc, hbc⟩

theorem askedBreakpoints_lt {arguments : Json} {asked : List (Nat × Option Nat)}
    (h : askedBreakpoints arguments = .ok asked) :
    ∀ a ∈ asked, a.1 < UInt32.size ∧ ∀ n ∈ a.2, n < UInt32.size := fun a ha => by
  obtain ⟨j, -, hj⟩ := of_mapM_ok h a ha
  exact askedBreakpoint_lt hj

/-! ## Breakpoints that are asked for -/

/-- The place of a breakpoint that is asked for, if a statement starts there. -/
def placeFor? (f : Frontier) (c : Connection (Agent State)) (path : String)
    (asked : Nat × Option Nat) : Option (UnitId × Nat) :=
  (c.peer.context.breakpoints.resolve c.peer.engine (Path.normalize f.workspace path) asked.1
    (asked.2.getD 1 - 1)).map fun k => (k.unit, k.offset)

/-- The breakpoints of the agent of a connection. -/
def points (c : Connection (Agent State)) : List Breakpoint := c.peer.context.breakpoints.points

/-- The numbers of those that are verified. -/
def verifiedIds (placed : List PlacedBreakpoint) : List Int :=
  (placed.filter (·.isVerified)).map (·.id)

theorem placeFor?_congr {f : Frontier} {c c' : Connection (Agent State)} (h : c.KeptIn c')
    (path : String) : placeFor? f c' path = placeFor? f c path := by
  funext asked
  rw [placeFor?, h.resolve_eq, ← placeFor?]

/-- What setting breakpoints comes to. -/
structure Placing (f : Frontier) (path : String) (asked : List (Nat × Option Nat))
    (c c' : Connection (Agent State)) (placed : List PlacedBreakpoint) : Prop where
  order : c'.InOrder
  kept : c.KeptIn c'
  word : ∀ b ∈ placed, Json.IsInt64 b.id
  /-- Those are verified for which there is a place. -/
  verified : placed.map (·.isVerified) = asked.map fun a => (placeFor? f c path a).isSome
  older : points c ⊆ points c'
  newer : ∀ p ∈ points c', p ∈ points c ∨ p.place ∈ asked.filterMap (placeFor? f c path)
  /-- At every place that is asked for, there is a breakpoint under a number that was told. -/
  standing : ∀ place ∈ asked.filterMap (placeFor? f c path),
    ∃ p ∈ points c', p.place = place ∧ (p.id : Int) ∈ verifiedIds placed
  /-- Every number that was told for a place is that of a breakpoint. -/
  live : ∀ id ∈ verifiedIds placed, ∃ p ∈ points c', (p.id : Int) = id

namespace Placing

variable {f : Frontier} {path : String} {c c' c'' : Connection (Agent State)}

theorem nil (h : c.InOrder) : Placing f path [] c c [] where
  order := h
  kept := .refl _ _
  word := nofun
  verified := rfl
  older := List.Subset.refl _
  newer _ hp := .inl hp
  standing := nofun
  live := nofun

/-- One breakpoint is set, and then the others. -/
theorem cons {a : Nat × Option Nat} {rest : List (Nat × Option Nat)} {first : PlacedBreakpoint}
    {others : List PlacedBreakpoint} (hkept : c.KeptIn c') (hword : Json.IsInt64 first.id)
    (hfirst : match placeFor? f c path a with
      | none => first.isVerified = false ∧ ∀ p, p ∈ points c' ↔ p ∈ points c
      | some place => first.isVerified = true ∧ ∃ number : Nat, first.id = number ∧
        ∀ p, p ∈ points c' ↔ p ∈ points c ∨ p = ⟨number, place.1, place.2⟩)
    (hrest : Placing f path rest c' c'' others) :
    Placing f path (a :: rest) c c'' (first :: others) := by
  have hcongr := placeFor?_congr (f := f) hkept path
  have hverified := hrest.verified
  have hnewer := hrest.newer
  have hstanding := hrest.standing
  rw [hcongr] at hverified hnewer hstanding
  have hwords : ∀ b ∈ first :: others, Json.IsInt64 b.id :=
    List.forall_mem_cons.2 ⟨hword, hrest.word⟩
  cases hplace : placeFor? f c path a with
  | none =>
      rw [hplace] at hfirst
      obtain ⟨hunverified, hpoints⟩ := hfirst
      have hids : verifiedIds (first :: others) = verifiedIds others := by
        simp [verifiedIds, hunverified]
      refine ⟨hrest.order, hkept.trans hrest.kept, hwords, ?_, fun p hp => ?_, fun p hp => ?_, ?_,
        ?_⟩
      · simp [hunverified, hverified, hplace]
      · exact hrest.older ((hpoints p).2 hp)
      · rw [List.filterMap_cons_none hplace]
        exact (hnewer p hp).imp_left (hpoints p).1
      · rw [List.filterMap_cons_none hplace, hids]
        exact hstanding
      · rw [hids]
        exact hrest.live
  | some place =>
      rw [hplace] at hfirst
      obtain ⟨hisVerified, number, hnumber, hpoints⟩ := hfirst
      have hids : verifiedIds (first :: others) = first.id :: verifiedIds others := by
        simp [verifiedIds, hisVerified]
      have hthere : (⟨number, place.1, place.2⟩ : Breakpoint) ∈ points c'' :=
        hrest.older ((hpoints _).2 (.inr rfl))
      refine ⟨hrest.order, hkept.trans hrest.kept, hwords, ?_, fun p hp => ?_, fun p hp => ?_,
        fun other hother => ?_, fun id hid => ?_⟩
      · simp [hisVerified, hverified, hplace]
      · exact hrest.older ((hpoints p).2 (.inl hp))
      · rw [List.filterMap_cons_some hplace]
        rcases hnewer p hp with hp | hp
        · rcases (hpoints p).1 hp with hp | rfl
          · exact .inl hp
          · exact .inr List.mem_cons_self
        · exact .inr (List.mem_cons_of_mem _ hp)
      · rw [List.filterMap_cons_some hplace] at hother
        rw [hids]
        rcases List.mem_cons.1 hother with rfl | hother
        · exact ⟨_, hthere, rfl, hnumber ▸ List.mem_cons_self⟩
        · obtain ⟨p, hp, hat, hid⟩ := hstanding other hother
          exact ⟨p, hp, hat, List.mem_cons_of_mem _ hid⟩
      · rw [hids] at hid
        rcases List.mem_cons.1 hid with rfl | hid
        · exact ⟨_, hthere, hnumber.symm⟩
        · exact hrest.live id hid

end Placing

/-! ## Requests to set breakpoints -/

namespace Server

variable {fuel : Nat} {s s' : Server (Agent State)} {l l' : Live (Agent State)} {α : Type}

/-- Asking the session goes to its connection. -/
theorem of_ask_connection {q : Session.Inquiry α} {outcome : Except Failure α}
    (h : s.ask fuel l q = some (s', l', outcome)) :
    l.session.connection.ask fuel q = some (l'.session.connection, outcome) ∧
      l'.session.frontier = l.session.frontier ∧ s'.live = some l' := by
  obtain ⟨session, hsession, rfl, rfl⟩ := of_ask h
  obtain ⟨⟨c, answer⟩, hask, hsame⟩ := Option.map_eq_some_iff.1 hsession
  obtain ⟨rfl, rfl⟩ := Prod.mk.inj hsame
  exact ⟨hask, rfl, rfl⟩

/-- Removing breakpoints leaves those of other numbers. -/
theorem removeAll_inv {ids : List Int} (horder : l.session.connection.InOrder)
    (hids : ∀ id ∈ ids, Json.IsInt64 id) (hlive : s.live = some l)
    (h : s.removeAll fuel l ids = some (s', l')) :
    s'.live = some l' ∧ l'.session.frontier = l.session.frontier ∧
      l'.session.connection.InOrder ∧ l.session.connection.KeptIn l'.session.connection ∧
      ∀ p, p ∈ points l'.session.connection ↔
        p ∈ points l.session.connection ∧ (p.id : Int) ∉ ids := by
  induction ids generalizing s l with
  | nil =>
      obtain ⟨rfl, rfl⟩ := Prod.mk.inj (Option.some.inj h)
      exact ⟨hlive, rfl, horder, .refl _ _, fun p => by simp⟩
  | cons id rest ih =>
      obtain ⟨⟨t, live, outcome⟩, hask, hrest⟩ := Option.bind_eq_some_iff.1 h
      obtain ⟨hword, hwords⟩ := List.forall_mem_cons.1 hids
      obtain ⟨hconnection, hfrontier, hlive'⟩ := of_ask_connection hask
      obtain ⟨horder', hkept, hpoints⟩ := horder.removeBreakpoint hword hconnection
      obtain ⟨hlast, hsame, horder'', hkept', hothers⟩ := ih horder' hwords hlive' hrest
      refine ⟨hlast, hsame.trans hfrontier, horder'', hkept.trans hkept', fun p => ?_⟩
      rw [hothers, points, hpoints, List.mem_cons, not_or, and_assoc]
      rfl

/-- Setting breakpoints has no other outcome than their placing. -/
theorem setAll_inv {path : String} {asked : List (Nat × Option Nat)}
    (horder : l.session.connection.InOrder) (hmapper : l.session.frontier.mapper = .identity)
    (hasked : ∀ a ∈ asked, a.1 < UInt32.size ∧ ∀ n ∈ a.2, n < UInt32.size)
    (hlive : s.live = some l) {outcome : Except Failure (List PlacedBreakpoint)}
    (h : s.setAll fuel l path asked = some (s', outcome)) :
    ∃ l' placed, outcome = .ok placed ∧ s'.live = some l' ∧
      l'.session.frontier = l.session.frontier ∧
      Placing l.session.frontier path asked l.session.connection l'.session.connection placed := by
  induction asked generalizing s l outcome with
  | nil =>
      obtain ⟨rfl, rfl⟩ := Prod.mk.inj (Option.some.inj h)
      exact ⟨l, [], rfl, hlive, rfl, .nil horder⟩
  | cons a rest ih =>
      obtain ⟨⟨t, live, answer⟩, hask, hrest⟩ := Option.bind_eq_some_iff.1 h
      obtain ⟨⟨hline, hcolumn⟩, hwords⟩ := List.forall_mem_cons.1 hasked
      obtain ⟨hconnection, hfrontier, hlive'⟩ := of_ask_connection hask
      obtain ⟨horder', hkept, first, rfl, hword, hfirst⟩ :=
        horder.setBreakpoint hmapper hline hcolumn hconnection
      obtain ⟨⟨u, others⟩, hothers, hresult⟩ := Option.bind_eq_some_iff.1 hrest
      obtain ⟨rfl, rfl⟩ := Prod.mk.inj (Option.some.inj hresult)
      obtain ⟨l', placed, rfl, hlast, hsame, hplacing⟩ :=
        ih horder' (by rw [hfrontier]; exact hmapper) hwords hlive' hothers
      rw [hfrontier] at hplacing
      refine ⟨l', first :: placed, rfl, hlast, hsame.trans hfrontier,
        .cons hkept hword ?_ hplacing⟩
      unfold placeFor?
      cases hresolve : l.session.connection.peer.context.breakpoints.resolve
          l.session.connection.peer.engine (Path.normalize l.session.frontier.workspace path) a.1
          (a.2.getD 1 - 1) with
      | none =>
          rw [hresolve] at hfirst
          exact hfirst
      | some k =>
          rw [hresolve] at hfirst
          exact hfirst

/-! ## Behind the end of a program -/

/-- A session whose connection has ended stays as it is, whatever it is asked for. -/
theorem ask_of_closed (hclosed : l.session.isClosed = true) {q : Session.Inquiry α}
    {outcome : Except Failure α} (h : s.ask fuel l q = some (s', l', outcome)) :
    l'.session.isClosed = true ∧ l'.session.frontier = l.session.frontier ∧ s'.live = some l' := by
  obtain ⟨hask, hfrontier, hlive⟩ := of_ask_connection h
  rw [Connection.ask_of_closed hclosed] at hask
  obtain ⟨hsame, -⟩ := Prod.mk.inj (Option.some.inj hask)
  refine ⟨?_, hfrontier, hlive⟩
  rw [Session.isClosed, ← hsame]
  exact hclosed

theorem removeAll_of_closed {ids : List Int} (hclosed : l.session.isClosed = true)
    (hlive : s.live = some l) (h : s.removeAll fuel l ids = some (s', l')) :
    l'.session.isClosed = true ∧ l'.session.frontier = l.session.frontier ∧ s'.live = some l' := by
  induction ids generalizing s l with
  | nil =>
      obtain ⟨rfl, rfl⟩ := Prod.mk.inj (Option.some.inj h)
      exact ⟨hclosed, rfl, hlive⟩
  | cons id rest ih =>
      obtain ⟨⟨t, live, outcome⟩, hask, hrest⟩ := Option.bind_eq_some_iff.1 h
      obtain ⟨hclosed', hfrontier, hlive'⟩ := ask_of_closed hclosed hask
      obtain ⟨hlast, hsame, hlive''⟩ := ih hclosed' hlive' hrest
      exact ⟨hlast, hsame.trans hfrontier, hlive''⟩

theorem setAll_of_closed {path : String} {asked : List (Nat × Option Nat)}
    (hclosed : l.session.isClosed = true) (hlive : s.live = some l)
    {outcome : Except Failure (List PlacedBreakpoint)}
    (h : s.setAll fuel l path asked = some (s', outcome)) :
    ∃ l', l'.session.isClosed = true ∧ l'.session.frontier = l.session.frontier ∧
      s'.live = some l' := by
  induction asked generalizing s l outcome with
  | nil =>
      obtain ⟨rfl, rfl⟩ := Prod.mk.inj (Option.some.inj h)
      exact ⟨l, hclosed, rfl, hlive⟩
  | cons a rest ih =>
      obtain ⟨⟨t, live, answer⟩, hask, hrest⟩ := Option.bind_eq_some_iff.1 h
      obtain ⟨hclosed', hfrontier, hlive'⟩ := ask_of_closed hclosed hask
      cases answer with
      | error e =>
          obtain ⟨rfl, -⟩ := Prod.mk.inj (Option.some.inj hrest)
          exact ⟨live, hclosed', hfrontier, hlive'⟩
      | ok first =>
          obtain ⟨⟨u, others⟩, hothers, hresult⟩ := Option.bind_eq_some_iff.1 hrest
          obtain ⟨rfl, -⟩ := Prod.mk.inj (Option.some.inj hresult)
          obtain ⟨l', hlast, hsame, hlive''⟩ := ih hclosed' hlive' hothers
          exact ⟨l', hlast, hsame.trans hfrontier, hlive''⟩

end Server

/-! ## Requests for a file -/

/-- Whether a request sets breakpoints in the file of the workspace that is known by a path. -/
def Request.setsIn (workspace url : String) (r : Request) : Bool :=
  r.command == "setBreakpoints" && (askedBreakpoints r.arguments).isOk &&
    Path.normalize workspace (sourcePath r.arguments) == url

/-- The places at which the breakpoints of a request resolve. -/
def placesOf (f : Frontier) (c : Connection (Agent State)) (r : Request) : List (UnitId × Nat) :=
  match askedBreakpoints r.arguments with
  | .ok asked => asked.filterMap (placeFor? f c (sourcePath r.arguments))
  | .error _ => []

/-- The places of the latest request that sets breakpoints in the program of a session. -/
def latestPlaces (f : Frontier) (c : Connection (Agent State)) (requests : List Request) :
    List (UnitId × Nat) :=
  ((requests.reverse.find? (Request.setsIn f.workspace c.peer.engine.program.url)).map
    (placesOf f c)).getD []

/-- Whether all requests that set breakpoints in a file spell its path alike. -/
def SpelledAlike (workspace url : String) (requests : List Request) : Prop :=
  ∀ r ∈ requests, ∀ r' ∈ requests, r.setsIn workspace url = true → r'.setsIn workspace url = true →
    sourcePath r.arguments = sourcePath r'.arguments

section

variable {f : Frontier} {c c' : Connection (Agent State)} {requests : List Request} {r : Request}
  {workspace url : String}

theorem SpelledAlike.of_append {more : List Request}
    (h : SpelledAlike workspace url (requests ++ more)) : SpelledAlike workspace url requests :=
  fun r hr r' hr' => h r (List.mem_append_left more hr) r' (List.mem_append_left more hr')

theorem placesOf_congr (h : c.KeptIn c') (r : Request) : placesOf f c' r = placesOf f c r := by
  rw [placesOf, placeFor?_congr h, ← placesOf]

theorem latestPlaces_congr (h : c.KeptIn c') (requests : List Request) :
    latestPlaces f c' requests = latestPlaces f c requests := by
  have hplaces : placesOf f c' = placesOf f c := funext (placesOf_congr h)
  rw [latestPlaces, h.program, hplaces, ← latestPlaces]

theorem latestPlaces_append_of_setsIn
    (h : r.setsIn f.workspace c.peer.engine.program.url = true) :
    latestPlaces f c (requests ++ [r]) = placesOf f c r := by
  simp [latestPlaces, h]

theorem latestPlaces_append_of_not_setsIn
    (h : r.setsIn f.workspace c.peer.engine.program.url = false) :
    latestPlaces f c (requests ++ [r]) = latestPlaces f c requests := by
  simp [latestPlaces, h]

end

/-! ## What a session keeps -/

/-- A session is on track with the requests that were made on it, where the server has the numbers
that stand under each path. -/
structure OnTrack (f : Frontier) (requests : List Request) (standing : String → List Int)
    (c : Connection (Agent State)) : Prop where
  order : c.InOrder
  word : ∀ path, ∀ id ∈ standing path, Json.IsInt64 id
  /-- Numbers stand only under spellings that requests for the program had. -/
  spelled : ∀ path, ∀ id ∈ standing path, ∃ r ∈ requests,
    r.setsIn f.workspace c.peer.engine.program.url = true ∧ sourcePath r.arguments = path
  /-- The number of every breakpoint stands under some spelling. -/
  covered : ∀ p ∈ points c, ∃ path, (p.id : Int) ∈ standing path
  latest : SpelledAlike f.workspace c.peer.engine.program.url requests →
    ∀ place, place ∈ c.peer.engine.breakpoints ↔ place ∈ latestPlaces f c requests

namespace OnTrack

variable {f : Frontier} {c c' c'' : Connection (Agent State)} {requests : List Request} {r : Request}
  {standing : String → List Int} {placed : List PlacedBreakpoint} {asked : List (Nat × Option Nat)}

/-- What leaves the breakpoints alone leaves a session on track. -/
theorem of_kept (h : OnTrack f requests standing c) (horder : c'.InOrder) (hkept : c.KeptIn c')
    (hpoints : points c' = points c) : OnTrack f requests standing c' where
  order := horder
  word := h.word
  spelled path id hid := by
    rw [hkept.program]
    exact h.spelled path id hid
  covered p hp := h.covered p (hpoints ▸ hp)
  latest halike place := by
    rw [hkept.program] at halike
    have hpoints' : c'.peer.context.breakpoints.points = c.peer.context.breakpoints.points :=
      hpoints
    rw [latestPlaces_congr hkept, ← h.latest halike, horder.coherent.mem_breakpoints_iff, hpoints',
      h.order.coherent.mem_breakpoints_iff]

/-- A request that sets no breakpoints in the program leaves a session on track. -/
theorem append (h : OnTrack f requests standing c)
    (hother : r.setsIn f.workspace c.peer.engine.program.url = false) :
    OnTrack f (requests ++ [r]) standing c where
  order := h.order
  word := h.word
  spelled path id hid := by
    obtain ⟨q, hq, hsets⟩ := h.spelled path id hid
    exact ⟨q, List.mem_append_left _ hq, hsets⟩
  covered := h.covered
  latest halike place := by
    rw [latestPlaces_append_of_not_setsIn hother]
    exact h.latest halike.of_append place

/-- Under a path that is not the program's there is nothing to remove. -/
theorem standing_eq_nil (h : OnTrack f requests standing c) {path : String}
    (hother : Path.normalize f.workspace path ≠ c.peer.engine.program.url) :
    standing path = [] := by
  refine List.eq_nil_iff_forall_not_mem.2 fun id hid => ?_
  obtain ⟨q, -, hsets, rfl⟩ := h.spelled path id hid
  simp only [Request.setsIn, Bool.and_eq_true, beq_iff_eq] at hsets
  exact hother hsets.2

end OnTrack

/-- What a request makes of the breakpoints: those are removed whose numbers stand under its path,
and then its own are set. -/
structure Exchanged (f : Frontier) (path : String) (asked : List (Nat × Option Nat))
    (ids : List Int) (c c' : Connection (Agent State)) (placed : List PlacedBreakpoint) : Prop where
  order : c'.InOrder
  kept : c.KeptIn c'
  word : ∀ id ∈ verifiedIds placed, Json.IsInt64 id
  live : ∀ id ∈ verifiedIds placed, ∃ p ∈ points c', (p.id : Int) = id
  verified : placed.map (·.isVerified) = asked.map fun a => (placeFor? f c path a).isSome
  /-- A breakpoint is left over, or its number was told for a place that is asked for. -/
  newer : ∀ p ∈ points c', (p ∈ points c ∧ (p.id : Int) ∉ ids) ∨
    p.place ∈ asked.filterMap (placeFor? f c path) ∧ (p.id : Int) ∈ verifiedIds placed
  older : ∀ p ∈ points c, (p.id : Int) ∉ ids → p ∈ points c'
  standing : ∀ place ∈ asked.filterMap (placeFor? f c path), ∃ p ∈ points c', p.place = place

namespace Exchanged

variable {f : Frontier} {c c' c'' : Connection (Agent State)} {path : String} {ids : List Int}
  {placed : List PlacedBreakpoint} {asked : List (Nat × Option Nat)}

theorem of_placing (hkept : c.KeptIn c')
    (hremoved : ∀ p, p ∈ points c' ↔ p ∈ points c ∧ (p.id : Int) ∉ ids)
    (h : Placing f path asked c' c'' placed) : Exchanged f path asked ids c c'' placed := by
  have hcongr := placeFor?_congr (f := f) hkept path
  obtain ⟨horder, hkept', hword, hverified, holder, hnewer, hstanding, hlive⟩ := h
  rw [hcongr] at hverified hnewer hstanding
  refine ⟨horder, hkept.trans hkept', fun id hid => ?_, hlive, hverified, fun p hp => ?_,
    fun p hp hid => holder ((hremoved p).2 ⟨hp, hid⟩), fun place hplace => ?_⟩
  · obtain ⟨b, hb, rfl⟩ := List.mem_map.1 hid
    exact hword b (List.mem_filter.1 hb).1
  · rcases hnewer p hp with hleft | hplace
    · exact .inl ((hremoved p).1 hleft)
    · obtain ⟨q, hq, hsame, hid⟩ := hstanding _ hplace
      obtain rfl := horder.coherent.eq_of_place hq hp hsame
      exact .inr ⟨hplace, hid⟩
  · obtain ⟨p, hp, hsame, -⟩ := hstanding place hplace
    exact ⟨p, hp, hsame⟩

/-- Where the machine has breakpoints then. -/
theorem mem_breakpoints_iff (h : Exchanged f path asked ids c c' placed) (place : UnitId × Nat) :
    place ∈ c'.peer.engine.breakpoints ↔ place ∈ asked.filterMap (placeFor? f c path) ∨
      ∃ p ∈ points c, p.place = place ∧ (p.id : Int) ∉ ids := by
  rw [h.order.coherent.mem_breakpoints_iff]
  constructor
  · rintro ⟨p, hp, rfl⟩
    rcases h.newer p hp with ⟨hleft, hid⟩ | ⟨hplace, -⟩
    · exact .inr ⟨p, hleft, rfl, hid⟩
    · exact .inl hplace
  · rintro (hplace | ⟨p, hp, rfl, hid⟩)
    · exact h.standing place hplace
    · exact ⟨p, h.older p hp hid, rfl⟩

/-- For another file than the program nothing is verified. -/
theorem placeFor?_of_other (horder : c.InOrder)
    (hother : Path.normalize f.workspace path ≠ c.peer.engine.program.url) :
    placeFor? f c path = fun _ => none := by
  funext a
  refine Option.map_eq_none_iff.2 ?_
  cases hresolve : c.peer.context.breakpoints.resolve c.peer.engine
      (Path.normalize f.workspace path) a.1 (a.2.getD 1 - 1) with
  | none => rfl
  | some k => exact absurd (horder.coherent.url_of_resolve hresolve) hother

end Exchanged

namespace OnTrack

variable {f : Frontier} {c c' : Connection (Agent State)} {requests : List Request} {r : Request}
  {standing : String → List Int} {placed : List PlacedBreakpoint} {asked : List (Nat × Option Nat)}

/-- A request that sets breakpoints leaves a session on track: the numbers that it was told stand
under its path then. -/
theorem exchange (h : OnTrack f requests standing c) (hcommand : r.command = "setBreakpoints")
    (hasked : askedBreakpoints r.arguments = .ok asked)
    (hexchanged : Exchanged f (sourcePath r.arguments) asked (standing (sourcePath r.arguments)) c c'
      placed) :
    OnTrack f (requests ++ [r])
      (fun path => if sourcePath r.arguments = path then verifiedIds placed else standing path) c' := by
  have hplaces : placesOf f c r = asked.filterMap (placeFor? f c (sourcePath r.arguments)) := by
    rw [placesOf, hasked]
  have hsetsIn : r.setsIn f.workspace c.peer.engine.program.url =
      (Path.normalize f.workspace (sourcePath r.arguments) == c.peer.engine.program.url) := by
    simp [Request.setsIn, hcommand, hasked, Except.isOk, Except.toBool]
  -- A number that was told was told for a place in the program.
  have htold : verifiedIds placed ≠ [] → r.setsIn f.workspace c.peer.engine.program.url = true := by
    rw [hsetsIn, beq_iff_eq]
    refine fun hne => by_contra fun hother => hne ?_
    have hnone := hexchanged.verified
    rw [Exchanged.placeFor?_of_other h.order hother] at hnone
    refine List.map_eq_nil_iff.2 (List.filter_eq_nil_iff.2 fun b hb hverified => ?_)
    obtain ⟨a, -, hfalse⟩ := List.mem_map.1 (hnone ▸ List.mem_map_of_mem hb)
    rw [hverified] at hfalse
    cases hfalse
  refine ⟨hexchanged.order, fun path id hid => ?_, fun path id hid => ?_, fun p hp => ?_,
    fun halike place => ?_⟩
  · split at hid
    · exact hexchanged.word id hid
    · exact h.word path id hid
  · rw [hexchanged.kept.program]
    split at hid
    · rename_i hpath
      exact ⟨r, List.mem_append_right _ List.mem_cons_self, htold (List.ne_nil_of_mem hid), hpath⟩
    · obtain ⟨q, hq, hsets⟩ := h.spelled path id hid
      exact ⟨q, List.mem_append_left _ hq, hsets⟩
  · rcases hexchanged.newer p hp with ⟨hleft, hid⟩ | ⟨-, hid⟩
    · obtain ⟨path, hstands⟩ := h.covered p hleft
      refine ⟨path, ?_⟩
      split
      · rename_i hpath
        exact absurd (hpath ▸ hstands) hid
      · exact hstands
    · exact ⟨sourcePath r.arguments, by simpa using hid⟩
  · rw [hexchanged.kept.program] at halike
    rw [latestPlaces_congr hexchanged.kept, hexchanged.mem_breakpoints_iff]
    cases hin : r.setsIn f.workspace c.peer.engine.program.url with
    | true =>
        rw [latestPlaces_append_of_setsIn hin, hplaces, or_iff_left]
        -- What is left over would stand under another spelling.
        rintro ⟨p, hp, -, hid⟩
        obtain ⟨path, hstands⟩ := h.covered p hp
        obtain ⟨q, hq, hsets, rfl⟩ := h.spelled path _ hstands
        have hsame := halike q (List.mem_append_left _ hq) r
          (List.mem_append_right _ List.mem_cons_self) hsets hin
        exact hid (hsame ▸ hstands)
    | false =>
        have hother : Path.normalize f.workspace (sourcePath r.arguments) ≠
            c.peer.engine.program.url := by
          rw [hsetsIn, beq_eq_false_iff_ne] at hin
          exact hin
        rw [latestPlaces_append_of_not_setsIn hin, ← h.latest halike.of_append,
          Exchanged.placeFor?_of_other h.order hother, h.standing_eq_nil hother,
          h.order.coherent.mem_breakpoints_iff]
        simp [points]

end OnTrack

/-! ## What a server keeps -/

namespace Server

open Debug (Agent)

variable {fuel : Nat} {setting : Setting (Agent State)} {s s' t u : Server (Agent State)}
  {l l' : Live (Agent State)} {r : Request} {sent : List Content} {flow : Flow} {f : Frontier}
  {requests : List Request} {asked : List (Nat × Option Nat)}

/-- A server whose session is on track, unless its program has ended. -/
def Tracked (f : Frontier) (requests : List Request) (s : Server (Agent State)) : Prop :=
  ∃ l, s.live = some l ∧ l.session.frontier = f ∧
    (l.session.isClosed = false → OnTrack f requests s.standing l.session.connection)

/-- A request to set breakpoints exchanges those that stand under its path. -/
theorem exchanged_of_setAll {path : String} (horder : l.session.connection.InOrder)
    (hmapper : l.session.frontier.mapper = .identity)
    (hwords : ∀ id ∈ s.standing path, Json.IsInt64 id)
    (hasked : askedBreakpoints r.arguments = .ok asked) (hlive : s.live = some l)
    (hremove : (s.forget path).removeAll fuel l (s.standing path) = some (t, l'))
    {outcome : Except Failure (List PlacedBreakpoint)}
    (hset : t.setAll fuel l' path asked = some (u, outcome)) :
    ∃ l'' placed, outcome = .ok placed ∧ u.live = some l'' ∧
      l''.session.frontier = l.session.frontier ∧
      Exchanged l.session.frontier path asked (s.standing path) l.session.connection
        l''.session.connection placed := by
  have hforgotten : (s.forget path).live = some l := hlive
  obtain ⟨hlive', hfrontier, horder', hkept, hremoved⟩ :=
    removeAll_inv horder hwords hforgotten hremove
  obtain ⟨l'', placed, rfl, hlast, hsame, hplacing⟩ :=
    setAll_inv horder' (by rw [hfrontier]; exact hmapper) (askedBreakpoints_lt hasked) hlive' hset
  rw [hfrontier] at hplacing
  exact ⟨l'', placed, rfl, hlast, hsame.trans hfrontier, .of_placing hkept hremoved hplacing⟩

/-- A request to set breakpoints changes nothing where the program has ended. -/
theorem closed_of_setAll {path : String} {ids : List Int} (hclosed : l.session.isClosed = true)
    (hlive : s.live = some l) (hremove : (s.forget path).removeAll fuel l ids = some (t, l'))
    {outcome : Except Failure (List PlacedBreakpoint)}
    (hset : t.setAll fuel l' path asked = some (u, outcome)) :
    ∃ l'', u.live = some l'' ∧ l''.session.frontier = l.session.frontier ∧
      l''.session.isClosed = true := by
  have hforgotten : (s.forget path).live = some l := hlive
  obtain ⟨hclosed', hfrontier, hlive'⟩ := removeAll_of_closed hclosed hforgotten hremove
  obtain ⟨l'', hclosed'', hsame, hlast⟩ := setAll_of_closed hclosed' hlive' hset
  exact ⟨l'', hlast, hsame.trans hfrontier, hclosed''⟩

/-- What stands behind a request that set breakpoints. -/
theorem standing_of_placed {path : String} {ids : List Int}
    (hremove : (s.forget path).removeAll fuel l (s.standing path) = some (t, l'))
    {outcome : Except Failure (List PlacedBreakpoint)}
    (hset : t.setAll fuel l' path asked = some (u, outcome)) :
    ({ u with breakpoints := (path, ids) :: u.breakpoints } : Server (Agent State)).standing =
      fun other => if path = other then ids else s.standing other := by
  funext other
  rw [standing_cons]
  split
  · rfl
  · rename_i hother
    rw [standing_congr ((setAll_breakpoints hset).trans (removeAll_breakpoints hremove)),
      standing_forget_of_ne s (Ne.symm hother)]

/-- A request that sets breakpoints leaves a server tracked. -/
theorem tracked_of_replaced (h : Tracked f requests s) (hmapper : f.mapper = .identity)
    (hcommand : r.command = "setBreakpoints") (hreplaced : Replaced fuel s r s' sent) :
    Tracked f (requests ++ [r]) s' := by
  obtain ⟨l, hlive, rfl, htrack⟩ := h
  cases hreplaced with
  | refused hrefused =>
      obtain ⟨e, he⟩ := hrefused.resolve_right (by rw [hlive]; nofun)
      refine ⟨l, hlive, rfl, fun hopen => (htrack hopen).append ?_⟩
      simp [Request.setsIn, he, Except.isOk, Except.toBool]
  | @failed asked l₀ l₁ t u e hasked hlive' hremove hset =>
      obtain rfl := Option.some.inj (hlive.symm.trans hlive')
      cases hclosed : l.session.isClosed with
      | true =>
          obtain ⟨l₂, hlive₂, hfrontier, hended⟩ := closed_of_setAll hclosed hlive hremove hset
          exact ⟨l₂, hlive₂, hfrontier, fun hopen => by cases hended.symm.trans hopen⟩
      | false =>
          have hontrack := htrack hclosed
          obtain ⟨l₂, placed, hok, -⟩ := exchanged_of_setAll hontrack.order hmapper (hontrack.word _)
            hasked hlive hremove hset
          cases hok
  | @placed asked l₀ l₁ t u placed hasked hlive' hremove hset =>
      obtain rfl := Option.some.inj (hlive.symm.trans hlive')
      cases hclosed : l.session.isClosed with
      | true =>
          obtain ⟨l₂, hlive₂, hfrontier, hended⟩ := closed_of_setAll hclosed hlive hremove hset
          exact ⟨l₂, hlive₂, hfrontier, fun hopen => by cases hended.symm.trans hopen⟩
      | false =>
          have hontrack := htrack hclosed
          obtain ⟨l₂, others, hok, hlive₂, hfrontier, hexchanged⟩ :=
            exchanged_of_setAll hontrack.order hmapper (hontrack.word _) hasked hlive hremove hset
          obtain rfl := Except.ok.inj hok
          refine ⟨l₂, hlive₂, hfrontier, fun _ => ?_⟩
          rw [standing_of_placed hremove hset]
          exact hontrack.exchange hcommand hasked hexchanged

/-- A request that is no launch leaves a server tracked. -/
theorem tracked_handle (h : Tracked f requests s) (hmapper : f.mapper = .identity)
    (hlaunch : r.command ≠ "launch") (hhandle : s.handle fuel setting r = some (s', sent, .more)) :
    Tracked f (requests ++ [r]) s' := by
  by_cases hset : r.command = "setBreakpoints"
  · exact tracked_of_replaced h hmapper hset
      (replaced_of_setBreakpoints (of_handle_setBreakpoints hset hhandle).1)
  have hother (c : Connection (Agent State)) :
      r.setsIn f.workspace c.peer.engine.program.url = false := by simp [Request.setsIn, hset]
  obtain ⟨l, hlive, rfl, htrack⟩ := h
  cases effect_of_handle hhandle with
  | idle => exact ⟨l, hlive, rfl, fun hopen => (htrack hopen).append (hother _)⟩
  | replaced hcommand => exact absurd hcommand hset
  | launched hcommand => exact absurd hcommand hlaunch
  | @asked α l₀ q session outcome shown noticed _ hlive' hmessage hask =>
      obtain rfl := Option.some.inj (hlive.symm.trans hlive')
      obtain ⟨⟨c, answer⟩, hconnection, hsame⟩ := Option.map_eq_some_iff.1 hask
      obtain ⟨rfl, rfl⟩ := Prod.mk.inj hsame
      refine ⟨_, rfl, rfl, fun hopen => ?_⟩
      cases hclosed : l.session.isClosed with
      | true =>
          rw [Connection.ask_of_closed hclosed] at hconnection
          obtain ⟨rfl, -⟩ := Prod.mk.inj (Option.some.inj hconnection)
          cases hclosed.symm.trans hopen
      | false =>
          have hontrack := htrack hclosed
          rcases hontrack.order.ask hmessage hconnection with hended | ⟨horder, hkept, hpoints⟩
          · cases hended.symm.trans hopen
          · exact (hontrack.append (hother _)).of_kept horder hkept hpoints

/-- Where no breakpoints stand, a launch that succeeds makes a server tracked. -/
theorem tracked_of_launch {host : Host} (hempty : s.breakpoints = [])
    (h : s.launch fuel (Console.setting host) r = some (s', sent))
    (hsuccess : sent.any Content.isSuccess = true) :
    ∃ f : Frontier, f.mapper = .identity ∧ Tracked f [] s' := by
  rcases of_launch h with ⟨-, hfailed⟩ |
    ⟨plan, peer, opening, session, shown, noticed, -, hlaunch, hstart, rfl, -⟩
  · cases hfailed.symm.trans hsuccess
  obtain ⟨library, url, source, program, -, rfl, rfl⟩ := of_launch_attached hlaunch
  obtain ⟨horder, hpoints, directory, hfrontier⟩ := Connection.inOrder_of_start hstart
  have hnone : ({ s with live := some ⟨session, shown, noticed⟩, plan := some plan } :
      Server (Agent State)).standing = fun _ => [] := by
    funext path
    rw [standing, hempty]
    rfl
  refine ⟨session.frontier, by rw [hfrontier]; rfl, _, rfl, rfl, fun _ => ?_⟩
  rw [hnone]
  refine ⟨horder, fun path => List.forall_mem_nil _, fun path => List.forall_mem_nil _,
    fun p hp => ?_, fun _ place => ?_⟩
  · rw [points, hpoints] at hp
    cases hp
  · rw [horder.coherent.mem_breakpoints_iff, hpoints]
    simp [latestPlaces]

/-- A whole run of requests without a launch leaves a server tracked. -/
theorem tracked_of_served (h : Tracked f [] s) (hmapper : f.mapper = .identity)
    (hserved : Served fuel setting s requests t) (hsession : ∀ r ∈ requests, r.command ≠ "launch") :
    Tracked f requests t := by
  induction hserved with
  | nil => exact h
  | append _ hlast ih =>
      refine tracked_handle (ih fun r hr => hsession r (List.mem_append_left _ hr)) hmapper ?_ hlast
      exact hsession _ (List.mem_append_right _ List.mem_cons_self)

/-- A request to set breakpoints replaces those of its file, as far as they were set under its
spelling of the file's path. After a launch on a server where no breakpoints stand, and any requests
but launches, let a request to set breakpoints succeed, and let the program not have ended. Then
those in the response are verified that resolve, and their numbers are numbers of breakpoints. The
machine has breakpoints exactly where those of the request resolve and where breakpoints were whose
numbers did not stand under its path. Where all requests for the program spell its path alike, the
machine has breakpoints exactly where those of the latest of them resolve. -/
theorem setBreakpoints_replaces {host : Host} {launch : Request} {launched : List Content}
    (hempty : s.breakpoints = []) (hlaunch : launch.command = "launch")
    (hlaunched : s.handle fuel (Console.setting host) launch = some (t, launched, flow))
    (hsuccess : launched.any Content.isSuccess = true)
    (hserved : Served fuel (Console.setting host) t requests u)
    (hsession : ∀ q ∈ requests, q.command ≠ "launch")
    (hset : r.command = "setBreakpoints")
    (hhandle : u.handle fuel (Console.setting host) r = some (s', sent, .more))
    (hanswer : sent.any Content.isSuccess = true) :
    ∃ l l' placed, u.live = some l ∧ s'.live = some l' ∧
      sent = [r.succeed (some (breakpointsBody placed))] ∧
      (l'.session.isClosed = false →
        let c := l'.session.connection
        let f := l'.session.frontier
        (∃ asked, askedBreakpoints r.arguments = .ok asked ∧ placed.map (·.isVerified) =
          asked.map fun a => (placeFor? f c (sourcePath r.arguments) a).isSome) ∧
        (∀ b ∈ placed, b.isVerified = true → ∃ p ∈ points c, (p.id : Int) = b.id) ∧
        (∀ place, place ∈ c.peer.engine.breakpoints ↔ place ∈ placesOf f c r ∨
          ∃ p ∈ points l.session.connection,
            p.place = place ∧ (p.id : Int) ∉ u.standing (sourcePath r.arguments)) ∧
        (SpelledAlike f.workspace c.peer.engine.program.url (requests ++ [r]) →
          ∀ place, place ∈ c.peer.engine.breakpoints ↔
            place ∈ latestPlaces f c (requests ++ [r]))) := by
  obtain ⟨f, hmapper, hstart⟩ :=
    tracked_of_launch hempty (of_handle_launch hlaunch hlaunched).1 hsuccess
  have htracked := tracked_of_served hstart hmapper hserved hsession
  have hreplaced := replaced_of_setBreakpoints (of_handle_setBreakpoints hset hhandle).1
  obtain ⟨l, hlive, rfl, htrack⟩ := htracked
  have hbehind := tracked_of_replaced ⟨l, hlive, rfl, htrack⟩ hmapper hset hreplaced
  obtain ⟨l', hlive', hfrontier, htrack'⟩ := hbehind
  cases hreplaced with
  | refused => cases hanswer
  | failed => cases hanswer
  | @placed asked l₀ l₁ t₁ u₁ placed hasked hlive₀ hremove hplaced =>
      obtain rfl := Option.some.inj (hlive.symm.trans hlive₀)
      refine ⟨l, l', placed, hlive, hlive', rfl, fun hopen => ?_⟩
      cases hclosed : l.session.isClosed with
      | true =>
          obtain ⟨l₂, hlive₂, -, hended⟩ := closed_of_setAll hclosed hlive hremove hplaced
          obtain rfl := Option.some.inj (hlive₂.symm.trans hlive')
          cases hended.symm.trans hopen
      | false =>
          have hontrack := htrack hclosed
          obtain ⟨l₂, others, hok, hlive₂, -, hexchanged⟩ :=
            exchanged_of_setAll hontrack.order hmapper (hontrack.word _) hasked hlive hremove hplaced
          obtain rfl := Except.ok.inj hok
          obtain rfl := Option.some.inj (hlive₂.symm.trans hlive')
          have hcongr := placeFor?_congr (f := l.session.frontier) hexchanged.kept
            (sourcePath r.arguments)
          have hplaces : placesOf l.session.frontier l₂.session.connection r = asked.filterMap
              (placeFor? l.session.frontier l.session.connection (sourcePath r.arguments)) := by
            rw [placesOf_congr hexchanged.kept, placesOf, hasked]
          rw [hfrontier]
          dsimp only
          rw [hplaces, hcongr]
          refine ⟨⟨asked, hasked, hexchanged.verified⟩, fun b hb hverified => ?_,
            hexchanged.mem_breakpoints_iff, (htrack' hopen).latest⟩
          exact hexchanged.live b.id (List.mem_map_of_mem (List.mem_filter.2 ⟨hb, hverified⟩))

/-! ## Two spellings -/

/-- Under one spelling, a request for no breakpoints takes back the one that was set. -/
theorem setBreakpoints_replaces_one_by_none :
    ∃ (t u s' : Server (Agent State)) (launched told sent : List Content) (l : Live (Agent State)),
      atStart.handle 20 (Console.setting twoPrograms) (.launching 1 "a.mod") =
        some (t, launched, .more) ∧
      t.handle 20 (Console.setting twoPrograms) (.settingLines 2 "/ws/a.mod" [1]) =
        some (u, told, .more) ∧
      u.handle 20 (Console.setting twoPrograms) (.settingLines 3 "/ws/a.mod" []) =
        some (s', sent, .more) ∧
      s'.live = some l ∧ l.session.isClosed = false ∧
      ∀ place, place ∉ l.session.connection.peer.engine.breakpoints := by
  obtain ⟨t, launched, told, l, hlaunch, hsuccess, hfirst, hbegun⟩ :=
    exists_begun_atStart (.inl ⟨rfl, rfl⟩)
  obtain ⟨l', hopened, hremoves⟩ := hbegun.removes
  have hsecond : (atStart.withSession l "a.mod" "/ws/a.mod").handle 20
      (Console.setting twoPrograms) (.settingLines 3 "/ws/a.mod" []) = some (_, _, .more) :=
    handle_of_setAll rfl rfl rfl rfl (hremoves _) rfl
  have hserved : Served 20 (Console.setting twoPrograms) t
      ([] ++ [.settingLines 2 "/ws/a.mod" [1]]) (atStart.withSession l "a.mod" "/ws/a.mod") :=
    .append .nil hfirst
  obtain ⟨_, last, _, -, hlive, -, hreplaced⟩ :=
    setBreakpoints_replaces rfl rfl hlaunch hsuccess hserved (by simp [Request.settingLines]) rfl
      hsecond rfl
  obtain rfl := Option.some.inj hlive
  obtain ⟨-, -, -, hlatest⟩ := hreplaced hopened.isOpen
  have halike : SpelledAlike l'.session.frontier.workspace
      l'.session.connection.peer.engine.program.url
      ([] ++ [.settingLines 2 "/ws/a.mod" [1]] ++ [.settingLines 3 "/ws/a.mod" []]) := by
    have hpath : ∀ q ∈ ([.settingLines 2 "/ws/a.mod" [1], .settingLines 3 "/ws/a.mod" []] :
        List Request), sourcePath q.arguments = "/ws/a.mod" :=
      List.forall_mem_cons.2 ⟨rfl, List.forall_mem_cons.2 ⟨rfl, List.forall_mem_nil _⟩⟩
    exact fun q hq q' hq' _ _ => (hpath q hq).trans (hpath q' hq').symm
  refine ⟨t, _, _, launched, told, _, l', hlaunch, hfirst, hsecond, rfl, hopened.isOpen,
    fun place hplace => ?_⟩
  have hsets : (Request.settingLines 3 "/ws/a.mod" []).setsIn l'.session.frontier.workspace
      l'.session.connection.peer.engine.program.url = true := by
    rw [hopened.frontier, hopened.url]
    decide +kernel
  rw [hlatest halike, latestPlaces_append_of_setsIn hsets] at hplace
  cases hplace

/-- The second request takes back what the client set in the program, and under its own spelling of
the path there is nothing to remove. The breakpoint of the first request is left. -/
theorem other_spelling_keeps_breakpoint :
    ∃ (t u s' : Server (Agent State)) (launched told sent : List Content) (l : Live (Agent State)),
      atStart.handle 20 (Console.setting twoPrograms) (.launching 1 "a.mod") =
        some (t, launched, .more) ∧
      t.handle 20 (Console.setting twoPrograms) (.settingLines 2 "/ws/a.mod" [1]) =
        some (u, told, .more) ∧
      u.handle 20 (Console.setting twoPrograms) (.settingLines 3 "a.mod" []) =
        some (s', sent, .more) ∧
      sent.any Content.isSuccess = true ∧ s'.live = some l ∧ l.session.isClosed = false ∧
      latestPlaces l.session.frontier l.session.connection
        [.settingLines 2 "/ws/a.mod" [1], .settingLines 3 "a.mod" []] = [] ∧
      l.session.connection.peer.engine.breakpoints = [(⟨0⟩, 0)] := by
  obtain ⟨t, launched, told, l, hlaunch, -, hfirst, hbegun⟩ :=
    exists_begun_atStart (.inl ⟨rfl, rfl⟩)
  have hsecond : (atStart.withSession l "a.mod" "/ws/a.mod").handle 20
      (Console.setting twoPrograms) (.settingLines 3 "a.mod" []) = some (_, _, .more) :=
    handle_of_setAll rfl rfl rfl rfl rfl rfl
  have hsets : (Request.settingLines 3 "a.mod" []).setsIn l.session.frontier.workspace
      l.session.connection.peer.engine.program.url = true := by
    rw [hbegun.frontier, hbegun.url]
    decide +kernel
  have hlatest : latestPlaces l.session.frontier l.session.connection
      ([.settingLines 2 "/ws/a.mod" [1]] ++ [.settingLines 3 "a.mod" []]) = [] :=
    latestPlaces_append_of_setsIn hsets
  exact ⟨t, _, _, launched, told, _, l, hlaunch, hfirst, hsecond, rfl, rfl, hbegun.isOpen, hlatest,
    hbegun.breakpoints⟩

end Server

end Adapter

end ScriptDebugger
