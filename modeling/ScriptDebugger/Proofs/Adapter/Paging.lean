import ScriptDebugger.Proofs.Adapter.Opening
import ScriptDebugger.Proofs.Session.Stacks
/-!
# The stack page by page

A client may ask for the stack in pages. A response holds the frames of its page, each under its
place on the stack, and a total, which is the number of the frames that the response holds. So a
client that goes on while there are frames left by the last total gets one page: what it takes for
the depth of the stack is never more than what it asked for. One that knows the depth of the stack
gets all of it.

## Main results

* `arrived_of_served` — the states of a server's session are reached by requests and runs.
* `OnStack.handle` — what a request for frames comes to.
* `Follows.of_totals`, `Follows.of_depth` — what a client gets that goes by the totals, and one that
  goes by the depth.
* `stack_page_by_page` — both, in every pause that a server gets to.
* `totals_hide_caller` — a stack of two frames of which a client gets one.
-/

namespace ScriptDebugger.Adapter

open Debug (Agent QueryError)
open Debug.Context (CallerChain)
open Machine (Program State)
open Session (Connection Failure Frontier shownFrames)
open Wire (DebuggerMessage HostMessage StackFrame)

/-! ## Bodies -/

theorem canonicalItems_eq_map (items : List Json) :
    Json.canonicalItems items = items.map Json.canonical := by
  induction items with
  | nil => rfl
  | cons j rest ih => rw [Json.canonicalItems, ih, List.map_cons]

/-- The frames of a response. -/
def framesOf (body : Json) : List Json := ((body.member? "stackFrames").bind Json.array?).getD []

/-- The total of a response. -/
def totalOf (body : Json) : Nat := ((body.member? "totalFrames").bind Json.nat?).getD 0

/-- A frame as a client gets it. -/
def sentFrame (frame : StackFrame) : Json := (frameBody frame).canonical

theorem canonical_stackBody (frames : List StackFrame) :
    (stackBody frames).canonical = .object
      [("stackFrames", .array (frames.map sentFrame)), ("totalFrames", .ofNat frames.length)] := by
  have hitems : Json.canonicalItems (frames.map frameBody) = frames.map sentFrame := by
    rw [canonicalItems_eq_map, List.map_map]
    rfl
  have hsorted : ¬"totalFrames" < "stackFrames" := by decide +kernel
  simp [stackBody, Json.canonical, Json.canonicalMembers, hitems, Json.sortMembers,
    Json.insertMember, hsorted, Json.ofNat]

theorem framesOf_stackBody (frames : List StackFrame) :
    framesOf (stackBody frames).canonical = frames.map sentFrame := by
  rw [canonical_stackBody]
  rfl

/-- The total is that of the page. -/
theorem totalOf_stackBody (frames : List StackFrame) :
    totalOf (stackBody frames).canonical = frames.length := by
  rw [canonical_stackBody]
  rfl

/-! ## Requests -/

namespace Request

/-- A request for a page of frames. -/
def page (seq start levels : Nat) : Request :=
  ⟨seq, "stackTrace", .object
    [("threadId", .ofNat threadId), ("startFrame", .ofNat start), ("levels", .ofNat levels)]⟩

/-- A request to step into a call. -/
def steppingIn (seq : Nat) : Request := ⟨seq, "stepIn", .object [("threadId", .ofNat threadId)]⟩

end Request

namespace Server

section

variable {r : Request} {key : String} {n : Nat}

theorem numberD_lt (h : numberD r key 0 = .ok n) : n < UInt32.size := by
  unfold numberD at h
  cases hnumber : number? r.arguments key with
  | error e =>
      rw [hnumber] at h
      cases h
  | ok found =>
      rw [hnumber] at h
      obtain rfl := Except.ok.inj h
      cases found with
      | none => decide
      | some found => exact number?_lt hnumber

/-- A number under a key is read if it is a word. -/
theorem number?_eq (hmember : r.arguments.member? key = some (.ofNat n)) :
    number? r.arguments key =
      match Json.nat32? (.ofNat n) with
      | some n => .ok (some n)
      | none => .error (.notANumber key (.ofNat n)) := by
  rw [number?, hmember]
  rfl

theorem numberD_of_word (hmember : r.arguments.member? key = some (.ofNat n))
    (hn : n < UInt32.size) : numberD r key 0 = .ok n := by
  rw [numberD, number?_eq hmember, Json.nat32?_ofNat hn]
  rfl

theorem word_of_numberD (hmember : r.arguments.member? key = some (.ofNat n)) {m : Nat}
    (h : numberD r key 0 = .ok m) : n < UInt32.size ∧ m = n := by
  by_cases hn : n < UInt32.size
  · rw [numberD_of_word hmember hn] at h
    exact ⟨hn, (Except.ok.inj h).symm⟩
  · have hnone : Json.nat32? (.ofNat n) = none := by
      cases hread : Json.nat32? (.ofNat n) with
      | none => rfl
      | some found =>
          simp [Json.nat32?, Json.ofNat, Json.intIn?, UInt32.size] at hread hn
          omega
    rw [numberD, number?_eq hmember, hnone] at h
    cases h

end

/-! ## Where a server gets -/

section

variable {fuel : Nat} {host : Host} {s t : Server (Agent State)} {requests : List Request}

/-- The program of a session has ended, or the session got where it is by requests and runs. -/
def Settled (session : Session (Agent State)) : Prop :=
  session.isClosed = true ∨ session.connection.Arrived

theorem keptByAsking_settled : KeptByAsking fuel Settled := by
  intro α q session session' outcome hsettled hask
  obtain ⟨⟨c, answer⟩, hconnection, hsame⟩ := Option.map_eq_some_iff.1 hask
  obtain ⟨rfl, rfl⟩ := Prod.mk.inj hsame
  rcases hsettled with hclosed | harrived
  · rw [Connection.ask_of_closed hclosed] at hconnection
    obtain ⟨rfl, -⟩ := Prod.mk.inj (Option.some.inj hconnection)
    exact .inl hclosed
  · exact harrived.ask hconnection

theorem settled_of_start {plan : LaunchPlan} {peer : Agent State} {opening : List UInt8}
    {session : Session (Agent State)}
    (htarget : (Console.setting host).launch fuel plan = some (.attached peer opening))
    (hstart : Session.start fuel (Connection.accept peer opening)
      ⟨plan.program, plan.workspace, plan.trace⟩ (Console.setting host).mapperFor =
        some (.ok session)) : Settled session := by
  obtain ⟨library, url, source, program, hsource, rfl, rfl⟩ := of_launch_attached htarget
  exact .inr (Connection.arrived_of_start hsource hstart)

/-- The states of a server's session are reached by requests and runs. -/
theorem settled_of_served (hfresh : s.live = none)
    (hserved : Served fuel (Console.setting host) s requests t) : OfLive Settled t := by
  induction hserved with
  | nil =>
      intro l hlive
      cases hfresh.symm.trans hlive
  | append _ hlast ih => exact ofLive_handle keptByAsking_settled settled_of_start ih hlast

end

/-! ## A page -/

/-- A server whose session is ready, with an agent in some state. -/
def OnAgent (peer : Agent State) (f : Frontier) (s : Server (Agent State)) : Prop :=
  ∃ l, s.live = some l ∧ l.session.connection.IsReady ∧ l.session.connection.peer = peer ∧
    l.session.frontier = f

/-- How many frames a request is for. -/
def levelsFor (levels : Nat) : Nat := if levels = 0 then defaultLevels else levels

section

variable {fuel : Nat} {setting : Setting (Agent State)} {s s' : Server (Agent State)}
  {peer : Agent State} {f : Frontier} {paused : FrameId} {chain : List (FrameId × FrameInfo)}
  {r : Request} {start levels : Nat} {sent : List Content} {flow : Flow}

theorem stackInquiry_eq (hstart : numberD r "startFrame" 0 = .ok start)
    (hlevels : numberD r "levels" 0 = .ok levels) :
    stackInquiry r f = .ok (Session.stack f start (levelsFor levels)) := by
  simp only [stackInquiry, hstart, hlevels]
  rfl

theorem levelsFor_lt (h : numberD r "levels" 0 = .ok levels) : levelsFor levels < UInt32.size := by
  unfold levelsFor
  split
  · decide
  · exact numberD_lt h

theorem of_handle_stackTrace (hcommand : r.command = "stackTrace")
    (h : s.handle fuel setting r = some (s', sent, flow)) :
    s.inquire fuel r (stackInquiry r) stackBody = some (s', sent) ∧ flow = .more := by
  simp only [handle, hcommand] at h
  obtain ⟨⟨after, contents⟩, hinquire, hsame⟩ := Option.map_eq_some_iff.1 h
  obtain ⟨rfl, hrest⟩ := Prod.mk.inj hsame
  obtain ⟨rfl, rfl⟩ := Prod.mk.inj hrest
  exact ⟨hinquire, rfl⟩

/-- The response to a request for frames, by the frames that there are. -/
def pageContent (r : Request) (frames : List StackFrame) (start count : Nat) : Content :=
  if start < frames.length then r.succeed (some (stackBody ((frames.drop start).take count)))
  else r.fail (Failure.remote (QueryError.frameNotFound start).message).message

variable (hpaused : peer.context.stepper.paused = some paused)
  (hchain : CallerChain peer.engine paused chain)

include hpaused hchain

/-- A request for frames is answered with those that there are, and leaves the agent as it is. -/
theorem OnAgent.handle (h : OnAgent peer f s) (hcommand : r.command = "stackTrace")
    (hstart : numberD r "startFrame" 0 = .ok start) (hlevels : numberD r "levels" 0 = .ok levels)
    (hhandle : s.handle fuel setting r = some (s', sent, flow)) :
    OnAgent peer f s' ∧ flow = .more ∧
      sent = [pageContent r (shownFrames f peer.engine chain) start (levelsFor levels)] := by
  obtain ⟨l, hlive, hready, rfl, rfl⟩ := h
  obtain ⟨hinquire, rfl⟩ := of_handle_stackTrace hcommand hhandle
  rw [inquire, hlive] at hinquire
  simp only [stackInquiry_eq hstart hlevels] at hinquire
  obtain ⟨⟨asked, live, outcome⟩, hask, hresult⟩ := Option.map_eq_some_iff.1 hinquire
  obtain ⟨rfl, rfl⟩ := Prod.mk.inj hresult
  obtain ⟨session, hsession, rfl, rfl⟩ := of_ask hask
  obtain ⟨⟨c, answer⟩, hconnection, hsame⟩ := Option.map_eq_some_iff.1 hsession
  obtain ⟨rfl, rfl⟩ := Prod.mk.inj hsame
  obtain ⟨hready', hpeer, rfl⟩ := Connection.ask_stack hready hpaused hchain (numberD_lt hstart)
    (levelsFor_lt hlevels) hconnection
  refine ⟨⟨_, rfl, hready', hpeer, rfl⟩, rfl, ?_⟩
  rw [pageContent, Session.length_shownFrames]
  by_cases hfound : start < chain.length
  · rw [if_pos hfound, if_pos hfound]
    rfl
  · rw [if_neg hfound, if_neg hfound]
    rfl

omit hpaused hchain in
/-- A request for frames has a response where what is written fits the wire. -/
theorem OnAgent.exists_handle (h : OnAgent peer f s) (hcommand : r.command = "stackTrace")
    (hstart : numberD r "startFrame" 0 = .ok start) (hlevels : numberD r "levels" 0 = .ok levels)
    (hwritable : ({ peer } : Connection (Agent State)).Writable fuel
      (Session.stack f start (levelsFor levels))) (setting : Setting (Agent State)) :
    ∃ s' sent flow, s.handle fuel setting r = some (s', sent, flow) := by
  obtain ⟨l, hlive, hready, rfl, rfl⟩ := h
  obtain ⟨⟨c, answer⟩, hask⟩ := Connection.exists_ask_of_served hready
    (q := Session.stack l.session.frontier start (levelsFor levels))
    ⟨numberD_lt hstart, levelsFor_lt hlevels⟩ (Connection.perform_getStack _ _ _ _)
    ⟨hwritable.message, hwritable.reply⟩
  simp only [Server.handle, hcommand, inquire, hlive, stackInquiry_eq hstart hlevels, ask,
    Session.ask, hask, Option.map_some]
  exact ⟨_, _, _, rfl⟩

end

/-! ## Clients -/

/-- A client that asks for page after page, and goes on while the next page begins below the total
that it makes out in the last response. -/
inductive Follows (fuel : Nat) (setting : Setting (Agent State)) (total : Json → Nat)
    (levels : Nat) : Server (Agent State) → (seq start : Nat) → (received : List Json) → Prop
  /-- The next page would begin at the total or behind it. -/
  | last {s s' : Server (Agent State)} {seq start : Nat} {body : Json}
    (hhandle : s.handle fuel setting (.page seq start levels) =
      some (s', [.response seq true "stackTrace" none (some body)], .more))
    (hend : total body ≤ start + levels) :
    Follows fuel setting total levels s seq start (framesOf body)
  /-- There are frames left. -/
  | more {s s' : Server (Agent State)} {seq start : Nat} {body : Json} {received : List Json}
    (hhandle : s.handle fuel setting (.page seq start levels) =
      some (s', [.response seq true "stackTrace" none (some body)], .more))
    (hmore : start + levels < total body)
    (hrest : Follows fuel setting total levels s' (seq + 1) (start + levels) received) :
    Follows fuel setting total levels s seq start (framesOf body ++ received)

section

variable {fuel : Nat} {setting : Setting (Agent State)} {s s' : Server (Agent State)}
  {peer : Agent State} {f : Frontier} {paused : FrameId} {chain : List (FrameId × FrameInfo)}
  {seq start levels : Nat} {body : Json} {received : List Json}

/-- The numbers of a request for a page are read if it succeeds. -/
theorem OnAgent.numbers_of_success (h : OnAgent peer f s) {r : Request}
    (hcommand : r.command = "stackTrace") {shown : Option Json} {flow : Flow}
    (hhandle : s.handle fuel setting r =
      some (s', [.response seq true r.command none shown], flow)) :
    (∃ start, numberD r "startFrame" 0 = .ok start) ∧ ∃ levels, numberD r "levels" 0 = .ok levels := by
  obtain ⟨l, hlive, -⟩ := h
  obtain ⟨hinquire, -⟩ := of_handle_stackTrace hcommand hhandle
  rw [inquire, hlive] at hinquire
  cases hstart : numberD r "startFrame" 0 with
  | error e =>
      have hinquiry : stackInquiry r l.session.frontier = .error e := by
        rw [stackInquiry, hstart]
        rfl
      simp only [hinquiry] at hinquire
      cases hinquire
  | ok start =>
      cases hlevels : numberD r "levels" 0 with
      | error e =>
          have hinquiry : stackInquiry r l.session.frontier = .error e := by
            rw [stackInquiry, hstart, hlevels]
            rfl
          simp only [hinquiry] at hinquire
          cases hinquire
      | ok levels => exact ⟨⟨start, rfl⟩, levels, rfl⟩

variable (hpaused : peer.context.stepper.paused = some paused)
  (hchain : CallerChain peer.engine paused chain)

include hpaused hchain

/-- A page that a client gets. -/
theorem OnAgent.page (h : OnAgent peer f s) (hpositive : 0 < levels)
    (hhandle : s.handle fuel setting (.page seq start levels) =
      some (s', [.response seq true "stackTrace" none (some body)], .more)) :
    OnAgent peer f s' ∧ start < chain.length ∧
      body = (stackBody (((shownFrames f peer.engine chain).drop start).take levels)).canonical := by
  obtain ⟨⟨first, hstart⟩, count, hlevels⟩ := h.numbers_of_success rfl hhandle
  obtain ⟨-, rfl⟩ := word_of_numberD (r := .page seq start levels) rfl hstart
  obtain ⟨-, rfl⟩ := word_of_numberD (r := .page seq first levels) rfl hlevels
  obtain ⟨hafter, -, hsent⟩ := h.handle hpaused hchain rfl hstart hlevels hhandle
  have hcount : levelsFor count = count := if_neg (Nat.ne_of_gt hpositive)
  rw [pageContent, hcount] at hsent
  by_cases hfound : first < (shownFrames f peer.engine chain).length
  · rw [if_pos hfound] at hsent
    have hbody := List.singleton_inj.1 hsent
    rw [Session.length_shownFrames] at hfound
    exact ⟨hafter, hfound, Option.some.inj (Content.response.inj hbody).2.2.2.2⟩
  · rw [if_neg hfound] at hsent
    cases hsent

/-- A client that goes by the totals gets one page. -/
theorem Follows.of_totals (h : OnAgent peer f s) (hpositive : 0 < levels)
    (hfollows : Follows fuel setting totalOf levels s seq 0 received) :
    received = ((shownFrames f peer.engine chain).take levels).map sentFrame := by
  cases hfollows with
  | last hhandle hend =>
      obtain ⟨-, -, rfl⟩ := h.page hpaused hchain hpositive hhandle
      rw [framesOf_stackBody, List.drop_zero]
  | more hhandle hmore hrest =>
      obtain ⟨-, -, rfl⟩ := h.page hpaused hchain hpositive hhandle
      rw [totalOf_stackBody, Nat.zero_add] at hmore
      have hshort := List.length_take_le levels ((shownFrames f peer.engine chain).drop 0)
      exact absurd hmore (Nat.not_lt_of_le hshort)

/-- A client that goes by the depth of the stack gets the rest of it. -/
theorem Follows.of_depth (h : OnAgent peer f s) (hpositive : 0 < levels)
    (hfollows : Follows fuel setting (fun _ => chain.length) levels s seq start received) :
    received = ((shownFrames f peer.engine chain).drop start).map sentFrame := by
  generalize htotal : (fun _ : Json => chain.length) = total at hfollows
  induction hfollows with
  | @last s s' seq start body hhandle hend =>
      subst htotal
      obtain ⟨-, -, rfl⟩ := h.page hpaused hchain hpositive hhandle
      have hwhole : ((shownFrames f peer.engine chain).drop start).length ≤ levels := by
        rw [List.length_drop, Session.length_shownFrames]
        exact Nat.sub_le_of_le_add (Nat.add_comm start levels ▸ hend)
      rw [framesOf_stackBody, List.take_of_length_le hwhole]
  | more hhandle hmore hrest ih =>
      obtain ⟨hafter, -, rfl⟩ := h.page hpaused hchain hpositive hhandle
      rw [framesOf_stackBody, ih hafter, ← List.map_append, ← List.drop_drop,
        List.take_append_drop]

/-- A page is sent where it fits the wire. -/
theorem OnAgent.exists_page (h : OnAgent peer f s) (hpositive : 0 < levels)
    (hlevels : levels < UInt32.size) (hstart : start < UInt32.size)
    (hfound : start < chain.length)
    (hwritable : ({ peer } : Connection (Agent State)).Writable fuel
      (Session.stack f start levels)) (setting : Setting (Agent State)) (seq : Nat) :
    ∃ s' body, OnAgent peer f s' ∧ s.handle fuel setting (.page seq start levels) =
      some (s', [.response seq true "stackTrace" none (some body)], .more) := by
  have hfirst : numberD (.page seq start levels) "startFrame" 0 = .ok start :=
    numberD_of_word rfl hstart
  have hcount : numberD (.page seq start levels) "levels" 0 = .ok levels :=
    numberD_of_word rfl hlevels
  have hsame : levelsFor levels = levels := if_neg (Nat.ne_of_gt hpositive)
  obtain ⟨s', sent, flow, hhandle⟩ := h.exists_handle rfl hfirst hcount
    (by rw [hsame]; exact hwritable) setting
  obtain ⟨hafter, rfl, rfl⟩ := h.handle hpaused hchain rfl hfirst hcount hhandle
  rw [pageContent, Session.length_shownFrames, if_pos hfound] at hhandle
  exact ⟨s', _, hafter, hhandle⟩

/-- A frame whose page fits the wire has a word for its place. -/
theorem OnAgent.word_of_writable (h : OnAgent peer f s) (hpositive : 0 < levels)
    (hfound : start < chain.length)
    (hwritable : ({ peer } : Connection (Agent State)).Writable fuel
      (Session.stack f start levels)) : start < UInt32.size := by
  obtain ⟨l, -, hready, rfl, -⟩ := h
  have hreceive := Agent.receive_of_served hready.peer
    (Connection.perform_getStack _ _ start levels) fuel
  obtain ⟨hfits, -⟩ := hwritable.reply _ _ hreceive
  rw [Debug.Context.stack_eq hpaused hchain, if_pos hfound, Debug.Context.drop_showFrames,
    Nat.zero_add, List.drop_eq_getElem_cons hfound, Debug.Context.showFrames_cons] at hfits
  obtain ⟨levels, rfl⟩ := Nat.exists_eq_succ_of_ne_zero (Nat.ne_of_gt hpositive)
  rw [List.take_succ_cons] at hfits
  exact (List.forall_mem_cons.1 hfits).1.id

/-- A client that goes by the depth comes to its end. -/
theorem OnAgent.exists_follows (h : OnAgent peer f s) (hpositive : 0 < levels)
    (hlevels : levels < UInt32.size)
    (hwritable : ∀ start < chain.length, ({ peer } : Connection (Agent State)).Writable fuel
      (Session.stack f start levels)) (hfound : start < chain.length)
    (setting : Setting (Agent State)) (seq : Nat) :
    ∃ received, Follows fuel setting (fun _ => chain.length) levels s seq start received := by
  obtain ⟨left, hleft⟩ : ∃ left, chain.length - start = left := ⟨_, rfl⟩
  induction left using Nat.strongRecOn generalizing s start seq with
  | ind left ih =>
      have hfits := hwritable start hfound
      have hword := h.word_of_writable hpaused hchain hpositive hfound hfits
      obtain ⟨s', body, hafter, hhandle⟩ :=
        h.exists_page hpaused hchain hpositive hlevels hword hfound hfits setting seq
      by_cases hmore : start + levels < chain.length
      · obtain ⟨received, hrest⟩ :=
          ih (chain.length - (start + levels)) (by omega) hafter hmore (seq + 1) rfl
        exact ⟨_, .more hhandle hmore hrest⟩
      · exact ⟨_, .last hhandle (Nat.le_of_not_lt hmore)⟩

end

/-! ## A call -/

/-- A session that is ready steps, where the agent tells of a step. -/
theorem exists_stepped {fuel : Nat} {s : Server (Agent State)} {l : Live (Agent State)}
    {a : Agent State} (hlive : s.live = some l) (hready : l.session.connection.IsReady)
    (hreceive : l.session.connection.peer.receive fuel .stepIn = some (a, [.stopOnStep]))
    (setting : Setting (Agent State)) (seq : Nat) :
    ∃ l' told, s.handle fuel setting (.steppingIn seq) =
        some ({ s with live := some l' }, told, .more) ∧
      l'.session.connection.IsReady ∧ l'.session.connection.peer = a ∧
      l'.session.frontier = l.session.frontier := by
  obtain ⟨c, hask, hpeer, hready'⟩ := Connection.exists_ask (q := Session.resume .stepIn) hready
    (HostMessage.heard?_of_fits trivial (by decide +kernel)) hreceive
    (DebuggerMessage.heard?_of_fits trivial (by decide +kernel))
  let l' := (Live.drain { l with session := { l.session with connection := c } }).1
  have hhandle : ∃ told, s.handle fuel setting (.steppingIn seq) =
      some ({ s with live := some l' }, told, .more) := by
    simp only [handle, Request.steppingIn, resume, hlive, proceed, ask, Session.ask, hask, drained,
      Option.map_some]
    exact ⟨_, rfl⟩
  obtain ⟨told, hhandle⟩ := hhandle
  exact ⟨l', told, hhandle, hready', hpeer, rfl⟩

/-- A host with a program that calls a function. -/
def oneCall : Host where
  text? _ path :=
    if path = "main.mod" then some "call f\nfunction f\n  print 1\nend\n" else none
  refusal? _ := none

/-- A client launches the program and steps into the call. Two frames are on the stack. -/
theorem exists_in_call :
    ∃ (t u : Server (Agent State)) (launched told : List Content) (l : Live (Agent State)),
      atStart.handle 20 (Console.setting oneCall) (.launching 1 "main.mod") =
        some (t, launched, .more) ∧
      t.handle 20 (Console.setting oneCall) (.steppingIn 2) = some (u, told, .more) ∧
      u.live = some l ∧ l.session.connection.IsReady ∧
      l.session.connection.peer.context.stepper.paused = some ⟨2⟩ ∧
      l.session.connection.peer.engine.stack.length = 2 ∧
      l.session.connection.Writable 20 (Session.stack l.session.frontier 0 1) := by
  have hcomputed :
      ((Program.load (oneCall.text? "/ws") "main.mod").toOption.bind fun program =>
        ((Agent.start (State.initial (oneCall.text? "/ws") program) none).1.receive 20
            (.loadProgram "main.mod")).bind fun a =>
          (a.1.receive 20 .stepIn).bind fun b =>
            (b.1.receive 20 (.getStack 0 1)).map fun c =>
              ([a.2, b.2, c.2], b.1.context.stepper.paused, b.1.engine.stack.length)) =
      some ([[.programLoaded "main.mod"], [.stopOnStep],
        [.stack [⟨0, "f", some "main.mod", 3, 2⟩]]], some ⟨2⟩, 2) := by cbv
  obtain ⟨program, hprogram, hcomputed⟩ := Option.bind_eq_some_iff.1 hcomputed
  obtain ⟨⟨a, loaded⟩, hloaded, hcomputed⟩ := Option.bind_eq_some_iff.1 hcomputed
  obtain ⟨⟨b, stepped⟩, hstepped, hcomputed⟩ := Option.bind_eq_some_iff.1 hcomputed
  obtain ⟨⟨c, shown⟩, hshown, hcomputed⟩ := Option.map_eq_some_iff.1 hcomputed
  simp only [Prod.mk.injEq, List.cons.injEq, and_true] at hcomputed
  obtain ⟨⟨rfl, rfl, rfl⟩, hpaused, hdepth⟩ := hcomputed
  have hload : State.load (oneCall.text? "/ws") "main.mod" =
      .ok (State.initial (oneCall.text? "/ws") program) := by
    rw [State.load]
    cases hresult : Program.load (oneCall.text? "/ws") "main.mod" with
    | error e => rw [hresult] at hprogram; cases hprogram
    | ok p => rw [hresult] at hprogram; rw [Option.some.inj hprogram]; rfl
  have hpath : Path.normalize "/ws" "main.mod" = "main.mod" := by decide +kernel
  have hparse : CommandLine.parse none
      ((planFor "main.mod").args ++ [(planFor "main.mod").program]) =
        .ok (.run "main.mod" none false) := rfl
  have htarget : oneCall.launch 20 (planFor "main.mod") =
      some (.attached (Agent.start (State.initial (oneCall.text? "/ws") program) none).1
        (Session.bytesOf (Agent.start (State.initial (oneCall.text? "/ws") program) none).2)) :=
    Host.launch_of_load rfl hparse hload rfl 20
  have hreceive : (Agent.start (State.initial (oneCall.text? "/ws") program) none).1.receive 20
      (.loadProgram (Path.normalize (planFor "main.mod").workspace (planFor "main.mod").program)) =
        some (a, [.programLoaded "main.mod"]) := by
    rw [planFor, hpath]
    exact hloaded
  have hasked : (HostMessage.loadProgram "main.mod").encode.length < UInt64.size := by
    decide +kernel
  have hfits : Connection.LoadFits 20
      (Agent.start (State.initial (oneCall.text? "/ws") program) none).1
      (Path.normalize (planFor "main.mod").workspace (planFor "main.mod").program) :=
    .of_receive (Agent.waits_start _) (by rw [planFor, hpath]; exact hasked) hreceive trivial
      (by decide +kernel)
  obtain ⟨l, launched, hlaunch, -, hready, rfl, -⟩ :=
    exists_launched (s := atStart) (r := .launching 1 "main.mod") rfl rfl htarget hfits hreceive rfl
  obtain ⟨l', told, hstep, hready', rfl, -⟩ :=
    exists_stepped (s := { atStart with live := some l, plan := some (planFor "main.mod") }) rfl
      hready hstepped (Console.setting oneCall) 2
  have hframe : (DebuggerMessage.stack [⟨0, "f", some "main.mod", 3, 2⟩]).Fits :=
    List.forall_mem_cons.2 ⟨⟨by decide, by decide, by decide⟩, List.forall_mem_nil _⟩
  have hmessage : (Session.stack l'.session.frontier 0 1).message = .getStack 0 1 := rfl
  have hwritable : l'.session.connection.Writable 20 (Session.stack l'.session.frontier 0 1) :=
    .of_receive hmessage (by decide +kernel) hshown hframe (by decide +kernel)
  exact ⟨_, _, launched, told, l', hlaunch, hstep, rfl, hready', hpaused, hdepth, hwritable⟩

/-! ## The stack -/

/-- What clients get of the frames of a paused program. -/
structure StackSent (fuel : Nat) (setting : Setting (Agent State)) (s : Server (Agent State))
    (f : Frontier) (c : Connection (Agent State)) (frames : List StackFrame) : Prop where
  /-- Every frame of the machine's stack is shown under its place. -/
  numbered : frames.map (·.id) = List.range c.peer.engine.stack.length
  /-- A request gets the frames from its start on, as many as it is for or there are, and fails
  where there is none. -/
  response : ∀ {r : Request} {start levels : Nat} {s' : Server (Agent State)} {sent : List Content}
    {flow : Flow}, r.command = "stackTrace" → numberD r "startFrame" 0 = .ok start →
    numberD r "levels" 0 = .ok levels → s.handle fuel setting r = some (s', sent, flow) →
    sent = [pageContent r frames start (levelsFor levels)]
  /-- The total in a response is that of its page. -/
  total : ∀ start levels, totalOf (stackBody ((frames.drop start).take levels)).canonical =
    min levels (frames.length - start)
  /-- A client that goes by the totals gets the first page. -/
  byTotals : ∀ {seq levels : Nat} {received : List Json}, 0 < levels →
    Follows fuel setting totalOf levels s seq 0 received →
    received = (frames.take levels).map sentFrame
  /-- A client that goes by the depth of the stack gets all of it. -/
  byDepth : ∀ {seq levels : Nat} {received : List Json}, 0 < levels →
    Follows fuel setting (fun _ => frames.length) levels s seq 0 received →
    received = frames.map sentFrame
  /-- Both come to an end where what is written fits the wire. -/
  ends : ∀ (seq : Nat) {levels : Nat}, 0 < levels → levels < UInt32.size →
    (∀ start < frames.length, c.Writable fuel (Session.stack f start levels)) →
    (∃ received, Follows fuel setting totalOf levels s seq 0 received) ∧
      ∃ received, Follows fuel setting (fun _ => frames.length) levels s seq 0 received

/-- What clients get of the stack page by page, in every pause that a server gets to: the frames of
the machine's stack stand in the responses in order, each under its place, but the total is that of
the page. So a client that goes by the totals gets the first page and no more, which is the whole
stack if it is no deeper than the page is long. One that goes by the depth gets the whole stack. -/
theorem stack_page_by_page {fuel : Nat} {host : Host} {s t : Server (Agent State)}
    {requests : List Request} {l : Live (Agent State)} {paused : FrameId} (hfresh : s.live = none)
    (hserved : Served fuel (Console.setting host) s requests t) (hlive : t.live = some l)
    (hopen : l.session.isClosed = false)
    (hpaused : l.session.connection.peer.context.stepper.paused = some paused) :
    ∃ chain, CallerChain l.session.connection.peer.engine paused chain ∧
      chain.map Prod.fst = l.session.connection.peer.engine.stack.map (·.id) ∧
      StackSent fuel (Console.setting host) t l.session.frontier l.session.connection
        (shownFrames l.session.frontier l.session.connection.peer.engine chain) := by
  have harrived : l.session.connection.Arrived := by
    rcases settled_of_served hfresh hserved l hlive with hclosed | harrived
    · cases hclosed.symm.trans hopen
    · exact harrived
  obtain ⟨chain, hchain, hnumbers⟩ := harrived.within.reached.callerChain hpaused
  have hdepth : chain.length = l.session.connection.peer.engine.stack.length := by
    simpa using congrArg List.length hnumbers
  have hagent : OnAgent l.session.connection.peer l.session.frontier t :=
    ⟨l, hlive, harrived.ready, rfl, rfl⟩
  refine ⟨chain, hchain, hnumbers, ?_, ?_, ?_, ?_, ?_, ?_⟩
  · rw [Session.ids_shownFrames, hdepth]
  · intro r start levels s' sent flow hcommand hstart hlevels hhandle
    exact (hagent.handle hpaused hchain hcommand hstart hlevels hhandle).2.2
  · intro start levels
    rw [totalOf_stackBody, List.length_take, List.length_drop]
  · intro seq levels received hpositive hfollows
    exact hfollows.of_totals hpaused hchain hagent hpositive
  · intro seq levels received hpositive hfollows
    rw [Session.length_shownFrames] at hfollows
    exact hfollows.of_depth hpaused hchain hagent hpositive
  · intro seq levels hpositive hlevels hwritable
    rw [Session.length_shownFrames] at hwritable ⊢
    have hpages : ∀ start < chain.length,
        ({ peer := l.session.connection.peer } : Connection (Agent State)).Writable fuel
          (Session.stack l.session.frontier start levels) := fun start hstart =>
      ⟨(hwritable start hstart).message, (hwritable start hstart).reply⟩
    refine ⟨?_, hagent.exists_follows hpaused hchain hpositive hlevels hpages hchain.length_pos
      (Console.setting host) seq⟩
    obtain ⟨s', body, -, hhandle⟩ := hagent.exists_page hpaused hchain hpositive hlevels
      (by decide) hchain.length_pos (hpages 0 hchain.length_pos) (Console.setting host) seq
    obtain ⟨-, -, rfl⟩ := hagent.page hpaused hchain hpositive hhandle
    refine ⟨_, .last hhandle ?_⟩
    rw [totalOf_stackBody, Nat.zero_add]
    exact List.length_take_le levels _

theorem stack_page_by_page_in_call :
    ∃ (t u : Server (Agent State)) (launched told : List Content) (l : Live (Agent State))
      (chain : List (FrameId × FrameInfo)),
      atStart.handle 20 (Console.setting oneCall) (.launching 1 "main.mod") =
        some (t, launched, .more) ∧
      t.handle 20 (Console.setting oneCall) (.steppingIn 2) = some (u, told, .more) ∧
      u.live = some l ∧ chain.length = 2 ∧
      StackSent 20 (Console.setting oneCall) u l.session.frontier l.session.connection
        (shownFrames l.session.frontier l.session.connection.peer.engine chain) := by
  obtain ⟨t, u, launched, told, l, hlaunch, hstep, hlive, hready, hpaused, hdepth, -⟩ :=
    exists_in_call
  have hserved : Served 20 (Console.setting oneCall) atStart
      ([] ++ [.launching 1 "main.mod"] ++ [.steppingIn 2]) u := .append (.append .nil hlaunch) hstep
  have hopen : l.session.isClosed = false := by rw [Session.isClosed, hready.mailbox]
  obtain ⟨chain, -, hnumbers, hsent⟩ := stack_page_by_page rfl hserved hlive hopen hpaused
  have hlength : chain.length = 2 := by
    rw [← hdepth]
    simpa using congrArg List.length hnumbers
  exact ⟨t, u, launched, told, l, chain, hlaunch, hstep, hlive, hlength, hsent⟩

/-- There are two frames on the stack. A client that asks for one at a time gets the upper one and a
total of one, and so does not ask for its caller. -/
theorem totals_hide_caller :
    ∃ (t u : Server (Agent State)) (launched told : List Content) (l : Live (Agent State))
      (received : List Json),
      atStart.handle 20 (Console.setting oneCall) (.launching 1 "main.mod") =
        some (t, launched, .more) ∧
      t.handle 20 (Console.setting oneCall) (.steppingIn 2) = some (u, told, .more) ∧
      u.live = some l ∧ l.session.isClosed = false ∧
      l.session.connection.peer.context.stepper.paused = some ⟨2⟩ ∧
      l.session.connection.peer.engine.stack.length = 2 ∧
      Follows 20 (Console.setting oneCall) totalOf 1 u 3 0 received ∧ received.length = 1 := by
  obtain ⟨t, u, launched, told, l, hlaunch, hstep, hlive, hready, hpaused, hdepth, hwritable⟩ :=
    exists_in_call
  have hserved : Served 20 (Console.setting oneCall) atStart
      ([] ++ [.launching 1 "main.mod"] ++ [.steppingIn 2]) u := .append (.append .nil hlaunch) hstep
  have hopen : l.session.isClosed = false := by rw [Session.isClosed, hready.mailbox]
  have harrived := (settled_of_served rfl hserved l hlive).resolve_left (by rw [hopen]; decide)
  obtain ⟨chain, hchain, hnumbers⟩ := harrived.within.reached.callerChain hpaused
  have hagent : OnAgent l.session.connection.peer l.session.frontier u :=
    ⟨l, hlive, hready, rfl, rfl⟩
  obtain ⟨u', body, -, hhandle⟩ := hagent.exists_page hpaused hchain Nat.one_pos (by decide)
    (by decide) hchain.length_pos ⟨hwritable.message, hwritable.reply⟩ (Console.setting oneCall) 3
  obtain ⟨-, -, rfl⟩ := hagent.page hpaused hchain Nat.one_pos hhandle
  have hlength : chain.length = 2 := by
    rw [← hdepth]
    simpa using congrArg List.length hnumbers
  refine ⟨t, u, launched, told, l, _, hlaunch, hstep, hlive, hopen, hpaused, hdepth,
    .last hhandle ?_, ?_⟩
  · rw [totalOf_stackBody]
    exact List.length_take_le 1 _
  · rw [framesOf_stackBody, List.length_map, List.length_take, List.length_drop,
      Session.length_shownFrames, hlength]
    rfl

end Server

end ScriptDebugger.Adapter
