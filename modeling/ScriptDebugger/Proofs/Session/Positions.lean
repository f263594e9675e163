import ScriptDebugger.Proofs.Debug.Replies
import ScriptDebugger.Proofs.Session.Reports
/-!
# Positions there and back

A position that a session shows can be named again. The path of a program comes back from the path
that is shown for it if both are written alike: with forward slashes, and with one slash between the
workspace and a relative path. So a breakpoint that is asked for where a frame of the stack is shown
is asked for, at the agent, where the agent has the frame.

## Main results

* `Path.normalize_qualify` — the path of a program comes back.
* `Session.Frontier.toInternal_toExternal` — a position comes back.
* `Session.shown_positions_come_back` — and so does the place of a frame.
-/

namespace ScriptDebugger

/-! ## Paths -/

namespace Path

/-- Whether a character stands between the components of a path, on some system. -/
def isSeparator (c : Char) : Bool := c == '/' || c == '\\'

/-- Whether a directory is written up to the end of its name, or with one slash behind it. -/
def endsInName (directory : List Char) : Bool :=
  match directory.reverse with
  | '/' :: c :: _ => !isSeparator c
  | c :: _ => !isSeparator c
  | [] => false

/-- Whether a path begins with the directory that a workspace means, and goes on behind it. -/
def isBelow (workspace path : String) : Bool := (root workspace ++ ['/']).isPrefixOf path.toList

/-- A path of a program that can be told from what is shown for it: it is written with forward
slashes, and lies outside of the workspace or else is relative to it. -/
structure IsTraceable (workspace path : String) : Prop where
  forward : '\\' ∉ path.toList
  outside : isAbsolute path = true → isBelow workspace path = false
  inside : isAbsolute path = false → endsInName workspace.toList = true

theorem forward_append (cs ds : List Char) : forward (cs ++ ds) = forward cs ++ forward ds :=
  List.map_append

theorem forward_of_not_mem {cs : List Char} (h : '\\' ∉ cs) : forward cs = cs := by
  have hkept : ∀ c ∈ cs, (if c = '\\' then '/' else c) = c := by
    intro c hc
    rw [if_neg]
    rintro rfl
    exact h hc
  rw [forward, List.map_congr_left hkept, List.map_id']

theorem dropSlashes_slash (cs : List Char) : dropSlashes (cs ++ ['/']) = dropSlashes cs := by
  simp [dropSlashes]

theorem dropSlashes_of_ne {c : Char} (h : c ≠ '/') (cs : List Char) :
    dropSlashes (cs ++ [c]) = cs ++ [c] := by
  simp [dropSlashes, h]

/-- What a directory that ends in a name is made of. -/
theorem exists_of_endsInName {directory : List Char} (h : endsInName directory = true) :
    ∃ front c, isSeparator c = false ∧
      (directory = front ++ [c] ∨ directory = front ++ [c] ++ ['/']) := by
  have hback := List.reverse_reverse directory
  unfold endsInName at h
  split at h
  · rename_i c rest hrest
    rw [hrest] at hback
    exact ⟨rest.reverse, c, by simpa using h, .inr (by simp [← hback])⟩
  · rename_i c rest _ hrest
    rw [hrest] at hback
    exact ⟨rest.reverse, c, by simpa using h, .inl (by simp [← hback])⟩
  · cases h

/-- A workspace that ends in a name means a directory, and joining puts one slash behind it. -/
theorem join_of_endsInName {workspace : String} (h : endsInName workspace.toList = true)
    (path : List Char) :
    root workspace ≠ [] ∧ ('\\' ∉ path →
      forward (join workspace.toList path) = root workspace ++ '/' :: path) := by
  obtain ⟨front, c, hc, hcases⟩ := exists_of_endsInName h
  obtain ⟨hslash, hback⟩ : c ≠ '/' ∧ c ≠ '\\' := by simpa [isSeparator] using hc
  have hname : forward (front ++ [c]) = forward front ++ [c] := by
    rw [forward_append, forward_of_not_mem (List.mem_singleton.not.2 (Ne.symm hback))]
  have hroot : root workspace = forward front ++ [c] := by
    rcases hcases with hplain | hended
    · rw [root, hplain, hname, dropSlashes_of_ne hslash]
    · rw [root, hended, forward_append, hname, show forward ['/'] = ['/'] from rfl,
        dropSlashes_slash, dropSlashes_of_ne hslash]
  have hjoin : join workspace.toList path = (front ++ [c]) ++ '/' :: path := by
    rcases hcases with hplain | hended
    · rw [hplain, join, if_neg (by simp), if_neg (by simp [hslash])]
    · rw [hended, join, if_neg (by simp), if_pos (by simp), List.append_assoc]
      rfl
  refine ⟨by simp [hroot], fun hpath => ?_⟩
  have hrest : forward ('/' :: path) = '/' :: path :=
    forward_of_not_mem (List.not_mem_cons_of_ne_of_not_mem (by decide) hpath)
  rw [hjoin, forward_append, hname, hrest, hroot]

/-- The path of a program comes back from what is shown for it. -/
theorem normalize_qualify {workspace path : String} (h : IsTraceable workspace path) :
    normalize workspace (qualify workspace path) = path := by
  cases habsolute : isAbsolute path with
  | true =>
      have hbelow : behind? (root workspace ++ ['/']) path.toList = none := by
        have houtside := h.outside habsolute
        rw [isBelow] at houtside
        rw [behind?, houtside]
        rfl
      rw [qualify_of_absolute habsolute, normalize, forward_of_not_mem h.forward]
      split
      · exact String.ofList_toList
      · rw [hbelow]
        exact String.ofList_toList
  | false =>
      obtain ⟨hroot, hjoin⟩ := join_of_endsInName (h.inside habsolute) path.toList
      have hshown : (qualify workspace path).toList = join workspace.toList path.toList := by
        rw [qualify, habsolute]
        exact String.toList_ofList
      rw [normalize_slash_append hroot (by rw [hshown, hjoin h.forward]), String.ofList_toList]

end Path

/-! ## Positions -/

namespace Session

open Debug (Agent)
open Machine (Program State)
open Wire (HostMessage DebuggerMessage StackFrame)

/-- A position of the agent comes back from the position that is shown for it. -/
theorem Frontier.toInternal_toExternal {f : Frontier} (hf : f.mapper = .identity) {path : String}
    (h : Path.IsTraceable f.workspace path) {column : Nat} (hcolumn : column + 1 < UInt32.size)
    (line : Nat) : f.toInternal (f.toExternal ⟨path, line, column⟩) = ⟨path, line, column⟩ := by
  have hshown : f.toExternal ⟨path, line, column⟩ =
      ⟨Path.qualify f.workspace path, line, column + 1⟩ := by
    rw [toExternal, hf, successor, Nat.mod_eq_of_lt hcolumn]
    rfl
  have hback : f.toInternal ⟨Path.qualify f.workspace path, line, column + 1⟩ =
      ⟨Path.normalize f.workspace (Path.qualify f.workspace path), line, column⟩ := by
    rw [toInternal, hf]
    rfl
  rw [hshown, hback, Path.normalize_qualify h]

/-- The frames that a session gives are those that the agent reported, as they are shown. -/
theorem Connection.reported_of_ask_stack {σ : Type} [Engine σ] {c c' : Connection (Agent σ)}
    {fuel : Nat} {f : Frontier} {index count : Nat} {frames : List StackFrame} (h : c.IsReady)
    (hindex : index < UInt32.size) (hcount : count < UInt32.size)
    (hask : c.ask fuel (stack f index count) = some (c', .ok frames)) :
    ∃ reported, c.peer.receive fuel (.getStack index count) = some (c'.peer, [.stack reported]) ∧
      frames = reported.map (externalFrame f) ∧ ∀ r ∈ reported, r.Fits := by
  obtain ⟨message, hheard, hanswered⟩ := ask_inv h hask
  obtain rfl : message = .getStack index count :=
    Option.some.inj ((Wire.decode?_of_heard? hheard).symm.trans
      (HostMessage.decode?_payload (m := .getStack index count) ⟨hindex, hcount⟩))
  generalize houtcome : Except.ok frames = outcome at hanswered
  cases hanswered with
  | ended => cases houtcome
  | @replied sent reply hreceive hreply hready =>
      have hkind : Debug.IsReply sent (.getStack index count) := by
        cases (Agent.settles_receive hreceive).reaction with
        | replied hkind => exact hkind
      rcases hkind with ⟨reported, rfl⟩ | ⟨text, rfl⟩
      · obtain ⟨rfl, hfits⟩ := DebuggerMessage.heard?_stack hreply
        exact ⟨reported, hreceive, Except.ok.inj houtcome, hfits⟩
      · obtain rfl : reply = .error text :=
          Option.some.inj ((Wire.decode?_of_heard? hreply).symm.trans
            (DebuggerMessage.decode?_payload (m := .error text) trivial))
        cases houtcome

/-- The request for a breakpoint where a frame is shown, whose source has a path. -/
def breakpointAt (f : Frontier) (path : String) (shown : StackFrame) : Inquiry PlacedBreakpoint :=
  setBreakpoint f path shown.line (some shown.column)

/-- Where a frame is shown, the agent is asked for a breakpoint where it has the frame. -/
theorem message_breakpointAt {f : Frontier} (hf : f.mapper = .identity)
    {frame : StackFrame} {url : String} (hsource : frame.source = some url)
    (h : Path.IsTraceable f.workspace url) (hcolumn : frame.column + 1 < UInt32.size) :
    ∃ path, (externalFrame f frame).source = some path ∧
      (breakpointAt f path (externalFrame f frame)).message =
        .setBreakpoint url frame.line frame.column := by
  have hback := Frontier.toInternal_toExternal hf h hcolumn frame.line
  refine ⟨(f.toExternal ⟨url, frame.line, frame.column⟩).path, ?_, ?_⟩
  · rw [externalFrame, hsource]
  · rw [externalFrame, hsource]
    show HostMessage.setBreakpoint (f.toInternal _).path (f.toInternal _).line
      (f.toInternal _).column = _
    rw [Option.getD_some, hback]

/-- What a session shows of its program can be named again: a position comes back as it was, and a
breakpoint where a frame of the stack is shown is asked for at the agent where the agent has the
frame. This is so for every workspace and all paths that are written as the front end writes
them. -/
theorem shown_positions_come_back {f : Frontier} (hf : f.mapper = .identity) :
    (∀ (url : String) (line column : Nat), Path.IsTraceable f.workspace url →
      column + 1 < UInt32.size →
      f.toInternal (f.toExternal ⟨url, line, column⟩) = ⟨url, line, column⟩) ∧
    ∀ {σ : Type} [Engine σ] {c c' : Connection (Agent σ)} {fuel : Nat} (index count : UInt32)
      {frames : List StackFrame}, c.IsReady →
      c.ask fuel (stack f index.toNat count.toNat) = some (c', .ok frames) →
      ∃ reported,
        c.peer.receive fuel (.getStack index.toNat count.toNat) =
          some (c'.peer, [.stack reported]) ∧
        frames = reported.map (externalFrame f) ∧
        ∀ frame ∈ reported, ∀ url, frame.source = some url → Path.IsTraceable f.workspace url →
          frame.column + 1 < UInt32.size →
          ∃ path, (externalFrame f frame).source = some path ∧
            ∀ {agent : Agent σ} (fuel : Nat), agent.Waits →
              (breakpointAt f path (externalFrame f frame)).message.encode.length < UInt64.size →
              agent.feed fuel (breakpointAt f path (externalFrame f frame)).message.encode =
                agent.receive fuel (.setBreakpoint url frame.line frame.column) := by
  refine ⟨fun url line column h hcolumn => Frontier.toInternal_toExternal hf h hcolumn line, ?_⟩
  intro σ _ c c' fuel index count frames hready hask
  obtain ⟨reported, hreceive, hframes, hfits⟩ :=
    Connection.reported_of_ask_stack hready index.toNat_lt_size count.toNat_lt_size hask
  refine ⟨reported, hreceive, hframes, fun frame hframe url hsource htraceable hcolumn => ?_⟩
  obtain ⟨path, hpath, hmessage⟩ :=
    message_breakpointAt hf hsource htraceable hcolumn
  refine ⟨path, hpath, fun {agent} fuel hwaits hsize => ?_⟩
  have hheard : (HostMessage.setBreakpoint url frame.line frame.column).heard? =
      some (.setBreakpoint url frame.line frame.column) :=
    HostMessage.heard?_of_fits ⟨(hfits frame hframe).line, (hfits frame hframe).column⟩
      (hmessage ▸ hsize)
  have hfeed := Agent.feed_encode hwaits (.setBreakpoint url frame.line frame.column) fuel
  rw [hheard] at hfeed
  rw [hmessage]
  exact hfeed

/-- A program of one statement shows its frame, and is asked for a breakpoint there. -/
theorem shown_positions_come_back_statement :
    ∃ (program : Program) (c c' : Connection (Agent State)) (frame : StackFrame),
      Program.ofSource "main.mod" "print 1\n" = .ok program ∧ c.IsReady ∧
      c.ask 10 (stack ⟨"/work", .identity⟩ 0 1) = some (c', .ok [frame]) ∧
      frame = ⟨0, "module", some "/work/main.mod", 1, 1⟩ ∧
      Path.IsTraceable "/work" "main.mod" ∧
      Frontier.toInternal ⟨"/work", .identity⟩
        (Frontier.toExternal ⟨"/work", .identity⟩ ⟨"main.mod", 1, 0⟩) = ⟨"main.mod", 1, 0⟩ ∧
      c'.peer.Waits ∧
      c'.peer.feed 10
          (breakpointAt ⟨"/work", .identity⟩ "/work/main.mod" frame).message.encode =
        c'.peer.receive 10 (.setBreakpoint "main.mod" 1 0) := by
  have hcomputed :
      ((Program.ofSource "main.mod" "print 1\n").toOption.bind fun program =>
        ((Agent.start (State.initial (fun _ => none) program) none).1.receive 10
            (.loadProgram "main.mod")).bind fun a =>
          (a.1.receive 10 (.getStack 0 1)).map fun b => [a.2, b.2]) =
      some [[.programLoaded "main.mod"], [.stack [⟨0, "module", some "main.mod", 1, 0⟩]]] := by cbv
  obtain ⟨program, hsource, hprogram⟩ := Program.exists_of_ofSource hcomputed
  obtain ⟨⟨a, loaded⟩, hload, hbehind⟩ := Option.bind_eq_some_iff.1 hprogram
  obtain ⟨⟨b, reported⟩, hstack, hvalues⟩ := Option.map_eq_some_iff.1 hbehind
  simp only [List.cons.injEq, and_true] at hvalues
  obtain ⟨rfl, rfl⟩ := hvalues
  have hwaits := Agent.waits_of_reply (Agent.waits_start _) hload
  have hready : Connection.IsReady { peer := a } := ⟨hwaits, rfl, rfl⟩
  have hfits : (DebuggerMessage.stack [⟨0, "module", some "main.mod", 1, 0⟩]).Fits := by
    rintro r (_ | ⟨_, ⟨⟩⟩)
    exact ⟨by decide, by decide, by decide⟩
  obtain ⟨c', hask, hpeer, hready'⟩ := Connection.exists_ask hready
    (q := stack ⟨"/work", .identity⟩ 0 1)
    (HostMessage.heard?_of_fits (m := .getStack 0 1) ⟨by decide, by decide⟩ (by decide +kernel))
    hstack (DebuggerMessage.heard?_of_fits hfits (by decide +kernel))
  have hshown : externalFrame ⟨"/work", .identity⟩ ⟨0, "module", some "main.mod", 1, 0⟩ =
      ⟨0, "module", some "/work/main.mod", 1, 1⟩ := by decide +kernel
  have htraceable : Path.IsTraceable "/work" "main.mod" :=
    ⟨by decide +kernel, by decide +kernel, by decide +kernel⟩
  have hinterpret : (stack ⟨"/work", .identity⟩ 0 1).interpret
      (.stack [⟨0, "module", some "main.mod", 1, 0⟩]) =
      .ok [⟨0, "module", some "/work/main.mod", 1, 1⟩] :=
    congrArg (fun shown => Except.ok [shown]) hshown
  rw [hinterpret] at hask
  obtain ⟨hback, hframes⟩ := shown_positions_come_back (f := ⟨"/work", .identity⟩) rfl
  obtain ⟨reported, hreceive, -, hall⟩ := hframes 0 1 hready hask
  obtain ⟨-, hsent⟩ := Prod.mk.inj (Option.some.inj (hstack.symm.trans hreceive))
  obtain rfl : [⟨0, "module", some "main.mod", 1, 0⟩] = reported :=
    DebuggerMessage.stack.inj (List.singleton_inj.1 hsent)
  obtain ⟨path, hpath, hfeed⟩ :=
    hall _ List.mem_cons_self "main.mod" rfl htraceable (by decide)
  rw [hshown] at hpath hfeed
  obtain rfl : "/work/main.mod" = path := Option.some.inj hpath
  exact ⟨program, { peer := a }, c', _, hsource, hready, hask, rfl, htraceable,
    hback "main.mod" 1 0 htraceable (by decide), hready'.peer,
    hfeed 10 hready'.peer (by decide +kernel)⟩

/-- Paths that do not come back: one with a backslash, and relative ones whose workspace is the root
or has two slashes behind its name. -/
theorem shown_position_changes :
    (Path.isAbsolute "/work" = true ∧ Path.isAbsolute "/opt/a\\b.mod" = true ∧
      Path.isBelow "/work" "/opt/a\\b.mod" = false ∧
      Frontier.toInternal ⟨"/work", .identity⟩
        (Frontier.toExternal ⟨"/work", .identity⟩ ⟨"/opt/a\\b.mod", 1, 0⟩) =
        ⟨"/opt/a/b.mod", 1, 0⟩) ∧
    (Path.isAbsolute "main.mod" = false ∧ '\\' ∉ "main.mod".toList) ∧
    (Path.isAbsolute "/" = true ∧
      Frontier.toInternal ⟨"/", .identity⟩
        (Frontier.toExternal ⟨"/", .identity⟩ ⟨"main.mod", 1, 0⟩) = ⟨"/main.mod", 1, 0⟩) ∧
    (Path.isAbsolute "/work//" = true ∧
      Frontier.toInternal ⟨"/work//", .identity⟩
        (Frontier.toExternal ⟨"/work//", .identity⟩ ⟨"main.mod", 1, 0⟩) =
        ⟨"/main.mod", 1, 0⟩) := by
  decide +kernel

end Session

end ScriptDebugger
