import ScriptDebugger.Proofs.Adapter.Opening
/-!
# The numbers of breakpoints over several sessions

A server that launches one program after another has one session after another, and each of them
numbers its breakpoints anew. The server keeps numbers under the path of the request that set them,
over all its sessions. What it did is written into a history: the launches, the numbers that a
session gave to breakpoints, the numbers that a session was to remove.

## Main results

* `vouched_handle` — what a request keeps.
* `launched_handle` — there is a session only behind a launch.
* `removed_was_placed` — a number that is to be removed was given for the same path, and on the same
  session, if that session has replaced the breakpoints of the path or is the only one.
* `removes_breakpoint_of_other_file` — where it has not, and programs were launched before, the
  number may be that of another file's breakpoint.
-/

namespace ScriptDebugger.Adapter

open Session (PlacedBreakpoint)

/-- What a server does about sessions and their breakpoints. -/
inductive Act
  /-- A session takes the place of the one before. -/
  | launched
  /-- For a path, the session is to remove the breakpoint of a number. -/
  | removed (path : String) (id : Int)
  /-- For a path, the session answers with a breakpoint. -/
  | placed (path : String) (b : PlacedBreakpoint)
  /-- The breakpoints of a path were all replaced. -/
  | replaced (path : String)
  deriving DecidableEq, Repr

/-- What was done on the session that a history ends in. -/
def currentSession (past : List Act) : List Act := past.reverse.takeWhile (· ≠ .launched)

/-- A number was given to a breakpoint for a path. -/
def HandedOut (acts : List Act) (path : String) (id : Int) : Prop :=
  ∃ b, .placed path b ∈ acts ∧ b.id = id ∧ b.isVerified = true

namespace Server

variable {π : Type} [Target π]

/-- The numbers that the session is to remove, of some that stand. -/
def removals (fuel : Nat) (s : Server π) (l : Live π) : List Int → List Int
  | [] => []
  | id :: rest =>
    id :: match s.ask fuel l (Session.removeBreakpoint id) with
      | some (s, l, _) => removals fuel s l rest
      | none => []

/-- The breakpoints that the session answers with, for some that are asked for. -/
def placements (fuel : Nat) (s : Server π) (l : Live π) (path : String) :
    List (Nat × Option Nat) → List PlacedBreakpoint
  | [] => []
  | (line, column) :: rest =>
    match s.ask fuel l (Session.setBreakpoint l.session.frontier path line column) with
    | some (s, l, .ok placed) => placed :: placements fuel s l path rest
    | _ => []

/-- What a request to set breakpoints does on a session. -/
def replacing (fuel : Nat) (s : Server π) (l : Live π) (path : String)
    (asked : List (Nat × Option Nat)) : List Act :=
  (removals fuel (s.forget path) l (s.standing path)).map (.removed path) ++
    match (s.forget path).removeAll fuel l (s.standing path) with
    | none => []
    | some (s, l) =>
      (placements fuel s l path asked).map (.placed path) ++
        match s.setAll fuel l path asked with
        | some (_, .ok _) => [.replaced path]
        | _ => []

/-- What a request does. -/
def acts (fuel : Nat) (setting : Setting π) (s : Server π) (r : Request) : List Act :=
  if r.command = "setBreakpoints" then
    match askedBreakpoints r.arguments, s.live with
    | .ok asked, some l => s.replacing fuel l (sourcePath r.arguments) asked
    | _, _ => []
  else if r.command = "launch" then
    match s.launch fuel setting r with
    | some (_, sent) => if sent.any Content.isSuccess then [.launched] else []
    | none => []
  else []

/-- What a server does that serves requests. -/
def history (fuel : Nat) (setting : Setting π) (s : Server π) : List Request → List Act
  | [] => []
  | r :: rest =>
    s.acts fuel setting r ++
      match s.handle fuel setting r with
      | some (s, _, .more) => history fuel setting s rest
      | _ => []

end Server

/-! ## The current session -/

section

variable {past acts more : List Act} {path : String} {id : Int}

theorem currentSession_launched (past : List Act) : currentSession (past ++ [.launched]) = [] := by
  simp [currentSession]

/-- What is done goes on with the session, unless a program is launched. -/
theorem mem_currentSession_append (h : .launched ∉ acts) {act : Act} :
    act ∈ currentSession (past ++ acts) ↔ act ∈ acts ∨ act ∈ currentSession past := by
  have hall : ∀ a ∈ acts.reverse, decide (a ≠ .launched) = true := fun a ha =>
    decide_eq_true fun heq => h (heq ▸ List.mem_reverse.1 ha)
  rw [currentSession, List.reverse_append, List.takeWhile_append_of_pos hall, List.mem_append,
    List.mem_reverse, ← currentSession]

/-- An act of a history in two parts is done in the one or in the other. -/
theorem act_of_append {before after : List Act} {act : Act}
    (h : acts ++ more = before ++ act :: after) :
    (∃ rest, before = acts ++ rest ∧ more = rest ++ act :: after) ∨
      ∃ rest, acts = before ++ act :: rest := by
  rcases List.append_eq_append_iff.1 h with hbehind | ⟨rest, hacts, hrest⟩
  · exact .inl hbehind
  · cases rest with
    | nil =>
        rw [List.nil_append] at hrest
        rw [List.append_nil] at hacts
        exact .inl ⟨[], by rw [hacts, List.append_nil], hrest.symm⟩
    | cons first rest =>
        obtain ⟨rfl, -⟩ := List.cons.inj hrest
        exact .inr ⟨rest, hacts⟩

theorem HandedOut.mono (h : HandedOut acts path id) (hsubset : acts ⊆ more) :
    HandedOut more path id := by
  obtain ⟨b, hb, hid, hverified⟩ := h
  exact ⟨b, hsubset hb, hid, hverified⟩

end

/-! ## What stands was handed out -/

namespace Server

variable {π : Type} [Target π] {fuel : Nat} {setting : Setting π} {s s' : Server π} {l l' : Live π}
  {r : Request} {sent : List Content} {flow : Flow} {past acts : List Act} {path : String}
  {id : Int}

/-- A number was handed out for a path, and on the current session if that has replaced the
breakpoints of the path. -/
structure Vouched (past : List Act) (path : String) (id : Int) : Prop where
  handedOut : HandedOut past path id
  current : .replaced path ∈ currentSession past → HandedOut (currentSession past) path id

theorem Vouched.append (h : Vouched past path id) (hlaunch : .launched ∉ acts)
    (hreplaced : .replaced path ∉ acts) : Vouched (past ++ acts) path id where
  handedOut := h.handedOut.mono (List.subset_append_left past acts)
  current hcurrent := by
    have hold := ((mem_currentSession_append hlaunch).1 hcurrent).resolve_left hreplaced
    exact (h.current hold).mono fun act hact => (mem_currentSession_append hlaunch).2 (.inr hact)

theorem Vouched.launched (h : Vouched past path id) : Vouched (past ++ [.launched]) path id where
  handedOut := h.handedOut.mono (List.subset_append_left past _)
  current hcurrent := by
    rw [currentSession_launched] at hcurrent
    cases hcurrent

/-- Every number that the server keeps is vouched for by what it did. -/
def AllVouched (past : List Act) (s : Server π) : Prop :=
  ∀ path, ∀ id ∈ s.standing path, Vouched past path id

theorem removals_subset (s : Server π) (l : Live π) (ids : List Int) :
    s.removals fuel l ids ⊆ ids := by
  induction ids generalizing s l with
  | nil => exact List.Subset.refl []
  | cons id rest ih =>
      refine List.cons_subset_cons id ?_
      split
      · exact ih _ _
      · exact List.nil_subset rest

/-- Where the session answers, all numbers that stand are to be removed. -/
theorem removals_of_removeAll {ids : List Int} (h : s.removeAll fuel l ids = some (s', l')) :
    s.removals fuel l ids = ids := by
  induction ids generalizing s l with
  | nil => rfl
  | cons id rest ih =>
      obtain ⟨⟨asked, live, answer⟩, hask, hrest⟩ := Option.bind_eq_some_iff.1 h
      simp only [removals, hask, ih hrest]

/-- The breakpoints of a request that succeeds are those that the session answered with. -/
theorem placements_of_setAll {asked : List (Nat × Option Nat)} {placed : List PlacedBreakpoint}
    (h : s.setAll fuel l path asked = some (s', .ok placed)) :
    s.placements fuel l path asked = placed := by
  induction asked generalizing s l placed with
  | nil =>
      obtain ⟨-, hplaced⟩ := Prod.mk.inj (Option.some.inj h)
      exact Except.ok.inj hplaced
  | cons position rest ih =>
      obtain ⟨⟨asked, live, answer⟩, hask, hrest⟩ := Option.bind_eq_some_iff.1 h
      cases answer with
      | error e => cases (Prod.mk.inj (Option.some.inj hrest)).2
      | ok first =>
          obtain ⟨⟨last, others⟩, hothers, hresult⟩ := Option.bind_eq_some_iff.1 hrest
          obtain ⟨rfl, hplaced⟩ := Prod.mk.inj (Option.some.inj hresult)
          cases others with
          | error e => cases hplaced
          | ok others =>
              obtain rfl := Except.ok.inj hplaced
              simp only [placements, hask, ih hothers]

/-- A request that succeeds has removed all numbers that stood for its path, placed the breakpoints
of its response, and replaced those of the path. -/
theorem replacing_of_setAll {asked : List (Nat × Option Nat)} {placed : List PlacedBreakpoint}
    {t : Server π} (hremove : (s.forget path).removeAll fuel l (s.standing path) = some (t, l'))
    (hset : t.setAll fuel l' path asked = some (s', .ok placed)) :
    s.replacing fuel l path asked =
      (s.standing path).map (.removed path) ++ (placed.map (.placed path) ++ [.replaced path]) := by
  simp only [replacing, removals_of_removeAll hremove, hremove, hset, placements_of_setAll hset]

/-- What a request to set breakpoints does: first it removes numbers that stand for its path, and
then it places breakpoints for it. -/
theorem exists_replacing (fuel : Nat) (s : Server π) (l : Live π) (path : String)
    (asked : List (Nat × Option Nat)) :
    ∃ ids ⊆ s.standing path, ∃ more,
      s.replacing fuel l path asked = ids.map (.removed path) ++ more ∧
      .launched ∉ more ∧ (∀ other, .replaced other ∈ more → other = path) ∧
      ∀ other id, .removed other id ∉ more := by
  refine ⟨_, removals_subset _ l _, _, rfl, ?_⟩
  split
  · simp
  · split
    · simp
    · simp

/-- No request to set breakpoints launches a program, and the breakpoints that it replaces are those
of its path. -/
theorem of_mem_replacing {asked : List (Nat × Option Nat)} :
    .launched ∉ s.replacing fuel l path asked ∧
      ∀ other, .replaced other ∈ s.replacing fuel l path asked → other = path := by
  obtain ⟨ids, -, more, hsplit, hlaunch, hreplaced, -⟩ :=
    exists_replacing fuel s l path asked
  rw [hsplit]
  refine ⟨fun hmem => ?_, fun other hmem => ?_⟩
  · rcases List.mem_append.1 hmem with hmem | hmem
    · obtain ⟨_, -, heq⟩ := List.mem_map.1 hmem
      cases heq
    · exact hlaunch hmem
  · rcases List.mem_append.1 hmem with hmem | hmem
    · obtain ⟨_, -, heq⟩ := List.mem_map.1 hmem
      cases heq
    · exact hreplaced other hmem

/-- Whatever a request does that is no launch, it does on the session, where it sets breakpoints. -/
theorem replacing_of_mem {act : Act} (h : act ∈ s.acts fuel setting r) (hact : act ≠ .launched) :
    ∃ asked l, s.live = some l ∧
      s.acts fuel setting r = s.replacing fuel l (sourcePath r.arguments) asked := by
  unfold acts at h ⊢
  split at h
  · rw [if_pos ‹_›]
    split at h
    · exact ⟨_, _, ‹_›, rfl⟩
    · cases h
  · split at h
    · split at h
      · split at h
        · exact absurd (List.mem_singleton.1 h) hact
        · cases h
      · cases h
    · cases h

/-- What a request does that launches a program. -/
theorem acts_of_launch (hcommand : r.command = "launch")
    (hlaunch : s.launch fuel setting r = some (s', sent)) :
    s.acts fuel setting r = if sent.any Content.isSuccess then [.launched] else [] := by
  rw [acts, if_neg (by rw [hcommand]; decide), if_pos hcommand, hlaunch]

/-- What a request does that sets all its breakpoints. -/
theorem acts_of_setAll (hcommand : r.command = "setBreakpoints")
    {asked : List (Nat × Option Nat)} {placed : List PlacedBreakpoint} {t : Server π}
    (hpath : sourcePath r.arguments = path) (hasked : askedBreakpoints r.arguments = .ok asked)
    (hlive : s.live = some l)
    (hremove : (s.forget path).removeAll fuel l (s.standing path) = some (t, l'))
    (hset : t.setAll fuel l' path asked = some (s', .ok placed)) :
    s.acts fuel setting r =
      (s.standing path).map (.removed path) ++ (placed.map (.placed path) ++ [.replaced path]) := by
  subst hpath
  rw [acts, if_pos hcommand, hasked, hlive]
  exact replacing_of_setAll hremove hset

/-- What a request does first that sets breakpoints where some stand. -/
theorem exists_acts_of_standing (hcommand : r.command = "setBreakpoints")
    {asked : List (Nat × Option Nat)} {ids : List Int} (hpath : sourcePath r.arguments = path)
    (hasked : askedBreakpoints r.arguments = .ok asked) (hlive : s.live = some l)
    (hstanding : s.standing path = id :: ids) :
    ∃ more, s.acts fuel setting r = .removed path id :: more := by
  subst hpath
  rw [acts, if_pos hcommand, hasked, hlive]
  dsimp only
  rw [replacing, hstanding]
  exact ⟨_, rfl⟩

/-- A number that a request removes is vouched for, where all numbers are. -/
theorem vouched_of_removed {before after : List Act} (h : AllVouched past s)
    (hacts : s.acts fuel setting r = before ++ .removed path id :: after) :
    Vouched (past ++ before) path id := by
  have hmem : .removed path id ∈ s.acts fuel setting r :=
    hacts ▸ List.mem_append_right before List.mem_cons_self
  obtain ⟨asked, l, -, hreplacing⟩ := replacing_of_mem hmem nofun
  obtain ⟨ids, hids, more, hsplit, -, -, hmore⟩ :=
    exists_replacing fuel s l (sourcePath r.arguments) asked
  rw [hreplacing, hsplit] at hacts
  -- What precedes the number are numbers that the same request removes.
  rcases act_of_append hacts with ⟨c, -, hlast⟩ | ⟨c, hfirst⟩
  · exact absurd (hlast ▸ List.mem_append_right c List.mem_cons_self) (hmore path id)
  · have hbefore : ∀ act ∈ before, ∃ other, .removed (sourcePath r.arguments) other = act :=
      fun act hact => by
        obtain ⟨other, -, heq⟩ := List.mem_map.1 (hfirst ▸ List.mem_append_left _ hact)
        exact ⟨other, heq⟩
    have hstands : id ∈ s.standing path := by
      obtain ⟨other, hother, heq⟩ :=
        List.mem_map.1 (hfirst ▸ List.mem_append_right before List.mem_cons_self)
      obtain ⟨rfl, rfl⟩ := Act.removed.inj heq
      exact hids hother
    refine (h path id hstands).append (fun hmem => ?_) fun hmem => ?_
    · obtain ⟨other, heq⟩ := hbefore _ hmem
      cases heq
    · obtain ⟨other, heq⟩ := hbefore _ hmem
      cases heq

/-- What stands for other paths goes on to be vouched for. -/
theorem vouched_of_other {asked : List (Nat × Option Nat)} {other : String} (hother : other ≠ path)
    (h : Vouched past other id) : Vouched (past ++ s.replacing fuel l path asked) other id :=
  h.append of_mem_replacing.1 fun hmem => hother (of_mem_replacing.2 other hmem)

/-- What a request to set breakpoints leaves in the table is vouched for. -/
theorem vouched_of_replaced (h : AllVouched past s) (hcommand : r.command = "setBreakpoints")
    (hreplaced : Replaced fuel s r s' sent) :
    AllVouched (past ++ s.acts fuel setting r) s' := by
  have hacts : s.acts fuel setting r = match askedBreakpoints r.arguments, s.live with
    | .ok asked, some l => s.replacing fuel l (sourcePath r.arguments) asked
    | _, _ => [] := if_pos hcommand
  cases hreplaced with
  | refused hrefused =>
      have hnone : s.acts fuel setting r = [] := by
        rw [hacts]
        rcases hrefused with ⟨e, he⟩ | hlive
        · rw [he]
        · rw [hlive]
          split
          · contradiction
          · rfl
      rw [hnone, List.append_nil]
      exact h
  | @failed asked l l' t u e hasked hlive hremove hset =>
      rw [hacts, hasked, hlive]
      intro other id hid
      have htable : s'.breakpoints = (s.forget (sourcePath r.arguments)).breakpoints :=
        (setAll_breakpoints hset).trans (removeAll_breakpoints hremove)
      rw [standing_congr htable] at hid
      by_cases hother : other = sourcePath r.arguments
      · rw [hother, standing_forget] at hid
        cases hid
      · rw [standing_forget_of_ne s hother] at hid
        exact vouched_of_other hother (h other id hid)
  | @placed asked l l' t u placed hasked hlive hremove hset =>
      rw [hacts, hasked, hlive]
      have htable := setAll_breakpoints hset
      intro other id hid
      rw [standing_cons] at hid
      split at hid
      · rename_i hsame
        subst hsame
        obtain ⟨b, hb, rfl⟩ := List.mem_map.1 hid
        obtain ⟨hb, hverified⟩ := List.mem_filter.1 hb
        have hplaced : .placed (sourcePath r.arguments) b ∈
            s.replacing fuel l (sourcePath r.arguments) asked := by
          simp [replacing_of_setAll hremove hset, hb]
        exact ⟨⟨b, List.mem_append_right past hplaced, rfl, hverified⟩, fun _ =>
          ⟨b, (mem_currentSession_append of_mem_replacing.1).2 (.inl hplaced), rfl, hverified⟩⟩
      · rename_i hother
        rw [standing_congr (htable.trans (removeAll_breakpoints hremove)),
          standing_forget_of_ne s (Ne.symm hother)] at hid
        exact vouched_of_other (Ne.symm hother) (h other id hid)

/-- What stands when a program is launched goes on to be vouched for. -/
theorem vouched_of_launch (h : AllVouched past s) (hcommand : r.command = "launch")
    (hlaunch : s.launch fuel setting r = some (s', sent)) :
    AllVouched (past ++ s.acts fuel setting r) s' := by
  have hacts := acts_of_launch hcommand hlaunch
  rcases of_launch hlaunch with ⟨rfl, hfailed⟩ |
    ⟨plan, peer, opening, session, shown, noticed, -, -, -, rfl, hdone⟩
  · rw [hacts, if_neg (by rw [hfailed]; decide), List.append_nil]
    exact h
  · rw [hacts, if_pos hdone]
    exact fun other id hid => (h other id hid).launched

/-- Whatever a request does, the numbers in the table are vouched for. -/
theorem vouched_handle (h : AllVouched past s)
    (hhandle : s.handle fuel setting r = some (s', sent, flow)) :
    AllVouched (past ++ s.acts fuel setting r) s' := by
  by_cases hset : r.command = "setBreakpoints"
  · exact vouched_of_replaced h hset
      (replaced_of_setBreakpoints (of_handle_setBreakpoints hset hhandle).1)
  by_cases hlaunch : r.command = "launch"
  · exact vouched_of_launch h hlaunch (of_handle_launch hlaunch hhandle).1
  rw [acts, if_neg hset, if_neg hlaunch, List.append_nil]
  cases effect_of_handle hhandle with
  | idle => exact h
  | asked => exact h
  | ended => exact h
  | replaced hcommand => exact absurd hcommand hset
  | launched hcommand => exact absurd hcommand hlaunch

/-- Every number that is removed in the course of a history is vouched for by what was done
before. -/
theorem vouched_of_history {requests : List Request} {before after : List Act}
    (h : AllVouched past s)
    (hhistory : s.history fuel setting requests = before ++ .removed path id :: after) :
    Vouched (past ++ before) path id := by
  induction requests generalizing past s before with
  | nil => cases before <;> cases hhistory
  | cons r rest ih =>
      rw [history] at hhistory
      rcases act_of_append hhistory with ⟨c, hbefore, hrest⟩ | ⟨c, hacts⟩
      · split at hrest
        · rename_i hhandle
          rw [hbefore, ← List.append_assoc]
          exact ih (vouched_handle h hhandle) hrest
        · cases c <;> cases hrest
      · exact vouched_of_removed h hacts

/-! ## Launches come first -/

/-- Whatever a request does, there is a session only behind a launch. -/
theorem launched_handle (h : s.live ≠ none → .launched ∈ past)
    (hhandle : s.handle fuel setting r = some (s', sent, flow)) :
    s'.live ≠ none → .launched ∈ past ++ s.acts fuel setting r := by
  intro hsession
  have hpast (hlive : s.live ≠ none) : .launched ∈ past ++ s.acts fuel setting r :=
    List.mem_append_left _ (h hlive)
  cases effect_of_handle hhandle with
  | idle => exact hpast hsession
  | asked hlive => exact hpast (hlive ▸ nofun)
  | ended => exact absurd rfl hsession
  | replaced _ hset =>
      cases replaced_of_setBreakpoints hset with
      | refused => exact hpast hsession
      | failed _ hlive => exact hpast (hlive ▸ nofun)
      | placed _ hlive => exact hpast (hlive ▸ nofun)
  | launched hcommand hlaunch =>
      rcases of_launch hlaunch with ⟨rfl, -⟩ |
        ⟨plan, peer, opening, session, shown, noticed, -, -, -, -, hdone⟩
      · exact hpast hsession
      · rw [acts_of_launch hcommand hlaunch, if_pos hdone]
        exact List.mem_append_right past List.mem_cons_self

/-- Breakpoints are placed behind a launch. -/
theorem launched_of_history {requests : List Request} {before after : List Act}
    {b : PlacedBreakpoint} (h : s.live ≠ none → .launched ∈ past)
    (hhistory : s.history fuel setting requests = before ++ .placed path b :: after) :
    .launched ∈ past ++ before := by
  induction requests generalizing past s before with
  | nil => cases before <;> cases hhistory
  | cons r rest ih =>
      rw [history] at hhistory
      rcases act_of_append hhistory with ⟨c, hbefore, hrest⟩ | ⟨c, hacts⟩
      · split at hrest
        · rename_i hhandle
          rw [hbefore, ← List.append_assoc]
          exact ih (launched_handle h hhandle) hrest
        · cases c <;> cases hrest
      · have hmem : .placed path b ∈ s.acts fuel setting r :=
          hacts ▸ List.mem_append_right before List.mem_cons_self
        obtain ⟨-, l, hlive, -⟩ := replacing_of_mem hmem nofun
        exact List.mem_append_left before (h (hlive ▸ nofun))

/-- Where there was no more than one launch, all numbers were handed out on the current session. -/
theorem handedOut_of_single_launch (hlive : s.live = none) {requests : List Request}
    {before after : List Act} (hhistory : s.history fuel setting requests = before ++ after)
    (hsingle : before.count .launched ≤ 1) (h : HandedOut before path id) :
    HandedOut (currentSession before) path id := by
  obtain ⟨b, hb, hid, hverified⟩ := h
  obtain ⟨first, last, rfl⟩ := List.append_of_mem hb
  rw [List.append_assoc, List.cons_append] at hhistory
  have hlaunched : .launched ∈ [] ++ first :=
    launched_of_history (fun hsession => absurd hlive hsession) hhistory
  have hfirst : 0 < first.count .launched := List.count_pos_iff.2 hlaunched
  have hlast : .launched ∉ Act.placed path b :: last := by
    rw [List.count_append] at hsingle
    exact List.count_eq_zero.1 (by omega)
  exact ⟨b, (mem_currentSession_append hlast).2 (.inl List.mem_cons_self), hid, hverified⟩

/-- A number that is to be removed for a path was given to a breakpoint for that path, by an answer
of a session. It was given by the session that is to remove it, if that session has replaced the
breakpoints of the path, or is the only one so far. This holds of whatever requests a server gets
that begins with no session and no breakpoints, and of all that it does in the course of them, of
those requests also that never come to an end. -/
theorem removed_was_placed (hlive : s.live = none) (hempty : s.breakpoints = [])
    {requests : List Request} {before after : List Act}
    (hhistory : s.history fuel setting requests = before ++ .removed path id :: after) :
    HandedOut before path id ∧
      (.replaced path ∈ currentSession before ∨ before.count .launched ≤ 1 →
        HandedOut (currentSession before) path id) := by
  have hstart : AllVouched [] s := fun other number hnumber => by
    rw [standing, hempty] at hnumber
    cases hnumber
  have hvouched := vouched_of_history hstart hhistory
  refine ⟨hvouched.handedOut, ?_⟩
  rintro (hreplaced | hsingle)
  · exact hvouched.current hreplaced
  · exact handedOut_of_single_launch hlive hhistory hsingle hvouched.handedOut

/-! ## Two programs -/

/-- A client sets a breakpoint in a program, launches another one and sets a breakpoint there, and
takes back what it set in the file of a path. -/
def switching (path : String) : List Request :=
  [.launching 1 "a.mod", .settingLines 2 "/ws/a.mod" [1], .launching 3 "b.mod",
    .settingLines 4 "/ws/b.mod" [1], .settingLines 5 path []]

/-- What is done until the client takes something back. -/
def switched (a b : PlacedBreakpoint) : List Act :=
  [.launched, .placed "/ws/a.mod" a, .replaced "/ws/a.mod", .launched, .placed "/ws/b.mod" b,
    .replaced "/ws/b.mod"]

/-- What a client does that begins a session. -/
theorem exists_history_of_begun {name path : String}
    (h : (name = "a.mod" ∧ path = "/ws/a.mod") ∨ (name = "b.mod" ∧ path = "/ws/b.mod"))
    {s closed : Server (Debug.Agent Machine.State)} (hconfig : s.config = {})
    (hfallback : s.fallback = "/ws") {ended : List Content}
    (hclose : s.closeSession 20 = some (closed, ended)) (hstanding : s.standing path = [])
    (seq : Nat) :
    ∃ l placed, placed.id = 1 ∧ Begun name l ∧ ∀ rest : List Request,
      s.history 20 (Console.setting twoPrograms)
          (.launching seq name :: .settingLines (seq + 1) path [1] :: rest) =
        [.launched, .placed path placed, .replaced path] ++
          (s.withSession l name path).history 20 (Console.setting twoPrograms) rest := by
  obtain ⟨launched, l, l', placed, hlaunch, hsuccess, hplaces, hid, hbegun⟩ :=
    exists_begun h hconfig hfallback hclose seq
  refine ⟨l', placed, hid, hbegun, fun rest => ?_⟩
  let t : Server (Debug.Agent Machine.State) :=
    { s with live := some l, plan := some (planFor name) }
  have hset := handle_of_begun (s := t) rfl hstanding hplaces hid (seq + 1)
    (Console.setting twoPrograms)
  have hfirst := acts_of_launch (r := .launching seq name) rfl (of_handle_launch rfl hlaunch).1
  have hremove : (t.forget path).removeAll 20 l (t.standing path) = some (t.forget path, l) := by
    rw [show t.standing path = [] from hstanding]
    rfl
  have hsecond : t.acts 20 (Console.setting twoPrograms) (.settingLines (seq + 1) path [1]) =
      (t.standing path).map (.removed path) ++ ([placed].map (.placed path) ++ [.replaced path]) :=
    acts_of_setAll rfl rfl rfl rfl hremove (hplaces _)
  rw [history, hlaunch, hfirst, if_pos hsuccess]
  dsimp only
  rw [history, hset, hsecond, show t.standing path = [] from hstanding]
  rfl

/-- Where the client has set breakpoints in both files, the first thing that is done for either of
them is to remove the number one. -/
theorem exists_history_switching (path : String) (h : path = "/ws/a.mod" ∨ path = "/ws/b.mod") :
    ∃ a b after, a.id = 1 ∧ b.id = 1 ∧
      atStart.history 20 (Console.setting twoPrograms) (switching path) =
        switched a b ++ .removed path 1 :: after := by
  obtain ⟨l, a, ha, hbegun, hhistory⟩ :=
    exists_history_of_begun (.inl ⟨rfl, rfl⟩) (s := atStart) rfl rfl rfl rfl 1
  obtain ⟨closed, ended, hclose⟩ :=
    hbegun.closes (atStart.withSession l "a.mod" "/ws/a.mod") rfl
  obtain ⟨l', b, hb, -, hhistory'⟩ :=
    exists_history_of_begun (.inr ⟨rfl, rfl⟩) rfl rfl hclose rfl 3
  let last := (atStart.withSession l "a.mod" "/ws/a.mod").withSession l' "b.mod" "/ws/b.mod"
  have hstanding : last.standing path = [1] := by
    rcases h with rfl | rfl
    · rfl
    · rfl
  obtain ⟨more, hmore⟩ : ∃ more, last.acts 20 (Console.setting twoPrograms)
      (.settingLines 5 path []) = .removed path 1 :: more :=
    exists_acts_of_standing rfl rfl rfl rfl hstanding
  rw [switching, hhistory, hhistory', history, hmore]
  exact ⟨a, b, _, ha, hb, rfl⟩

/-- The number that is removed for the second program was given to its breakpoint. -/
theorem removed_was_placed_second_program :
    ∃ before after : List Act, atStart.live = none ∧ atStart.breakpoints = [] ∧
      atStart.history 20 (Console.setting twoPrograms) (switching "/ws/b.mod") =
        before ++ .removed "/ws/b.mod" 1 :: after ∧
      .replaced "/ws/b.mod" ∈ currentSession before ∧
      HandedOut (currentSession before) "/ws/b.mod" 1 := by
  obtain ⟨a, b, after, -, -, hhistory⟩ := exists_history_switching "/ws/b.mod" (.inr rfl)
  have hreplaced : .replaced "/ws/b.mod" ∈ currentSession (switched a b) := List.mem_cons_self
  exact ⟨_, _, rfl, rfl, hhistory, hreplaced,
    (removed_was_placed rfl rfl hhistory).2 (.inl hreplaced)⟩

/-- The number that is removed for the first program was given, on the session that is to remove it,
to the breakpoint of the second program and to no other one. -/
theorem removes_breakpoint_of_other_file :
    ∃ before after : List Act,
      atStart.history 20 (Console.setting twoPrograms) (switching "/ws/a.mod") =
        before ++ .removed "/ws/a.mod" 1 :: after ∧
      HandedOut (currentSession before) "/ws/b.mod" 1 ∧
      ∀ path, HandedOut (currentSession before) path 1 → path = "/ws/b.mod" := by
  obtain ⟨a, b, after, -, hb, hhistory⟩ := exists_history_switching "/ws/a.mod" (.inl rfl)
  have hcurrent : currentSession (switched a b) =
      [.replaced "/ws/b.mod", .placed "/ws/b.mod" b] := rfl
  refine ⟨_, _, hhistory, ?_, fun path hpath => ?_⟩
  · rw [hcurrent]
    refine ⟨b, List.mem_cons_of_mem _ List.mem_cons_self, hb, ?_⟩
    simp [PlacedBreakpoint.isVerified, Session.unresolvedId, hb]
  · rw [hcurrent] at hpath
    obtain ⟨placed, hplaced, -, -⟩ := hpath
    simp only [List.mem_cons, reduceCtorEq, Act.placed.injEq, List.not_mem_nil, or_false,
      false_or] at hplaced
    exact hplaced.1

end Server

end ScriptDebugger.Adapter
