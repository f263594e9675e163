import ScriptDebugger.Proofs.Bootstrap.PortReplies
/-!
# Offers and requests

The front end offers ports at any time, while the rendezvous serves its connections one after the
other. What a peer sends arrives in pieces, and the rendezvous reads what is there, whatever the
pieces, until it has as many bytes as a request or the peer has closed the connection. Then it
decides: a request takes the offer that stands, and anything else is passed over.

`Outside` is what the front end and the peers do, and `Serving` what the rendezvous does, in steps
small enough that every order of them is a `Run`. An answer is one step, because the offer is taken
under the lock under which it is made. The history of a run tells the offers and the answers, the
latest one first, and `Stands` says of a history alone which offer is to be had.

## Main results

* `Sound.outside`, `Sound.serve` — what every step keeps.
* `Stands.eq_of_handsOut` — an offer that was handed out stands no more.
* `offers_handed_out_once` — what becomes of every connection and of every offer.
-/

namespace ScriptDebugger.Bootstrap

/-! ## Connections -/

/-- A connection to the rendezvous. -/
structure Caller where
  /-- What was read of what the peer sent. -/
  read : List UInt8 := []
  /-- What has arrived behind that. -/
  arrived : List UInt8 := []
  /-- Whether the peer sends nothing more. -/
  closed : Bool := false
  /-- What was written back, once the connection is answered. -/
  reply : Option (List UInt8) := none

namespace Caller

/-- The bytes that count, of all that the peer has sent. -/
def opening (c : Caller) : List UInt8 := (c.read ++ c.arrived).take portRequest.length

/-- The peer has closed the connection, or has sent as many bytes as a request has. -/
def IsComplete (c : Caller) : Prop :=
  c.closed = true ∨ portRequest.length ≤ (c.read ++ c.arrived).length

/-- Nothing more is read. -/
def IsRead (c : Caller) : Prop :=
  c.read.length = portRequest.length ∨ c.closed = true ∧ c.arrived = []

/-- What counts is what was read. -/
theorem IsRead.opening_eq {c : Caller} (h : c.IsRead)
    (hshort : c.read.length ≤ portRequest.length) : c.opening = c.read := by
  rcases h with hfull | ⟨-, hnothing⟩
  · rw [opening, List.take_append_of_le_length (Nat.le_of_eq hfull.symm), ← hfull, List.take_length]
  · rw [opening, hnothing, List.append_nil, List.take_of_length_le hshort]

end Caller

/-! ## Runs -/

/-- What is told of a run. -/
inductive Happening
  /-- The front end offered a port. -/
  | offered (port : UInt16)
  /-- The connection of the number was answered. -/
  | answered (caller : Nat) (reply : List UInt8)
  deriving DecidableEq

/-- The connection that was answered. -/
def Happening.caller? : Happening → Option Nat
  | .offered _ => none
  | .answered caller _ => some caller

/-- Whether a target got a port. -/
def Happening.HandsOut (e : Happening) : Prop :=
  ∃ caller, ∃ port : UInt16, e = .answered caller (portReply port.toNat)

/-- The rendezvous and those who deal with it. -/
structure Scene where
  /-- The offer that it has. -/
  rendezvous : Rendezvous := {}
  /-- The connections, in the order in which they were made. -/
  callers : List Caller := []
  /-- How many of them are answered. The next one is being read. -/
  served : Nat := 0
  /-- What has happened, the latest first. -/
  history : List Happening := []

/-- What the front end and the peers do. -/
inductive Outside (w : Scene) : Scene → Prop
  /-- The front end offers a port. -/
  | offer (port : UInt16) :
      Outside w
        { w with
          rendezvous := w.rendezvous.offer port.toNat
          history := .offered port :: w.history }
  /-- A peer connects. -/
  | connect : Outside w { w with callers := w.callers ++ [{}] }
  /-- A piece of what a peer sends arrives. -/
  | deliver {i : Nat} {c : Caller} (hc : w.callers[i]? = some c) (hopen : c.closed = false)
      (piece : List UInt8) :
      Outside w { w with callers := w.callers.set i { c with arrived := c.arrived ++ piece } }
  /-- A peer closes its side. -/
  | close {i : Nat} {c : Caller} (hc : w.callers[i]? = some c) :
      Outside w { w with callers := w.callers.set i { c with closed := true } }

/-- What the rendezvous does. -/
inductive Serving (w : Scene) : Scene → Prop
  /-- Some of the bytes that have arrived are read, as many as there is room for at most. -/
  | read {c : Caller} (hc : w.callers[w.served]? = some c) {n : Nat} (hpositive : 0 < n)
      (hthere : n ≤ c.arrived.length) (hroom : c.read.length + n ≤ portRequest.length) :
      Serving w
        { w with
          callers := w.callers.set w.served
            { c with read := c.read ++ c.arrived.take n, arrived := c.arrived.drop n } }
  /-- The connection is answered and dropped, and the next one is taken. -/
  | answer {c : Caller} (hc : w.callers[w.served]? = some c) (hread : c.IsRead) :
      Serving w
        { rendezvous := (w.rendezvous.answer c.read).1
          callers := w.callers.set w.served
            { c with reply := some (w.rendezvous.answer c.read).2 }
          served := w.served + 1
          history := .answered w.served (w.rendezvous.answer c.read).2 :: w.history }

/-- The scenes that come of any order of steps, with the number of those that the rendezvous
made. -/
inductive Run : Nat → Scene → Prop
  | start : Run 0 {}
  | outside {n : Nat} {w w' : Scene} (h : Run n w) (hstep : Outside w w') : Run n w'
  | serve {n : Nat} {w w' : Scene} (h : Run n w) (hstep : Serving w w') : Run (n + 1) w'

/-! ## The offer that stands -/

/-- The offer that a history leaves to the next target: the latest one, unless a target got it. -/
inductive Stands : List Happening → UInt16 → Prop
  | offered {port : UInt16} {history : List Happening} : Stands (.offered port :: history) port
  | passed {port : UInt16} {history : List Happening} {caller : Nat} {reply : List UInt8}
      (h : Stands history port) (hreply : ∀ other : UInt16, reply ≠ portReply other.toNat) :
      Stands (.answered caller reply :: history) port

theorem portReply_ne_nil (port : Nat) : portReply port ≠ [] := by
  rw [portReply_eq]
  exact List.append_ne_nil_of_right_ne_nil _ (List.cons_ne_nil _ _)

theorem portReply_ne_noSession (port : Nat) : portReply port ≠ Text.Utf8.encode noSession := by
  intro hsame
  have hnewline : 10 ∈ portReply port := by
    rw [portReply_eq]
    exact List.mem_append_right _ List.mem_cons_self
  rw [hsame] at hnewline
  exact absurd hnewline (by decide +kernel)

section

variable {history : List Happening} {port other : UInt16} {caller : Nat} {reply : List UInt8}

theorem stands_offered_iff : Stands (.offered other :: history) port ↔ port = other := by
  constructor
  · intro h
    cases h
    rfl
  · rintro rfl
    exact .offered

/-- An answer without a port leaves the offer alone. -/
theorem stands_passed_iff (hreply : ∀ other : UInt16, reply ≠ portReply other.toNat) :
    Stands (.answered caller reply :: history) port ↔ Stands history port := by
  constructor
  · intro h
    cases h with
    | passed h => exact h
  · intro h
    exact .passed h hreply

/-- An answer with a port takes the offer. -/
theorem not_stands_handed :
    ¬Stands (.answered caller (portReply other.toNat) :: history) port := by
  intro h
  cases h with
  | passed _ hreply => exact hreply other rfl

/-- One offer stands. -/
theorem Stands.unique (h : Stands history port) (h' : Stands history other) : port = other := by
  induction h with
  | offered => exact (stands_offered_iff.1 h').symm
  | passed _ hreply ih => exact ih ((stands_passed_iff hreply).1 h')

/-- Behind an answer that handed out a port, an offer stands only if it was made since. -/
theorem Stands.offered_since {since before : List Happening} {e : Happening} (he : e.HandsOut)
    (h : Stands (since ++ e :: before) port) : .offered port ∈ since := by
  induction since with
  | nil =>
      obtain ⟨caller, other, rfl⟩ := he
      exact absurd h not_stands_handed
  | cons latest since ih =>
      cases h with
      | offered => exact List.mem_cons_self
      | passed h => exact List.mem_cons_of_mem _ (ih h)

end

/-- What is due to a connection that opens with these bytes. -/
inductive Due (history : List Happening) : (opening reply : List UInt8) → Prop
  | other {opening : List UInt8} (h : opening ≠ portRequest) : Due history opening []
  | port {port : UInt16} (h : Stands history port) :
      Due history portRequest (portReply port.toNat)
  | noSession (h : ∀ port, ¬Stands history port) :
      Due history portRequest (Text.Utf8.encode noSession)

/-- The rendezvous has the offer that stands. -/
def Holds (r : Rendezvous) (history : List Happening) : Prop :=
  ∀ port : Nat, r.offered = some port ↔ ∃ p, Stands history p ∧ p.toNat = port

/-- Deciding is right about the reply and keeps the offer that stands. -/
theorem Holds.answer {r : Rendezvous} {history : List Happening} (h : Holds r history)
    {opening : List UInt8} (hshort : opening.length ≤ portRequest.length) (caller : Nat) :
    Due history opening (r.answer opening).2 ∧
      Holds (r.answer opening).1 (.answered caller (r.answer opening).2 :: history) := by
  by_cases hrequest : opening = portRequest
  · subst hrequest
    cases hoffered : r.offered with
    | some port =>
        obtain ⟨p, hstands, rfl⟩ := (h port).1 hoffered
        have hanswer : r.answer portRequest = (⟨none⟩, portReply p.toNat) := by
          rw [Rendezvous.answer, List.take_length, if_pos rfl, hoffered]
        rw [hanswer]
        refine ⟨.port hstands, fun port => iff_of_false (fun hsome => by cases hsome) ?_⟩
        rintro ⟨q, hq, -⟩
        exact not_stands_handed hq
    | none =>
        have hanswer : r.answer portRequest = (r, Text.Utf8.encode noSession) := by
          rw [Rendezvous.answer, List.take_length, if_pos rfl, hoffered]
        rw [hanswer]
        refine ⟨.noSession fun p hstands => ?_, fun port => ?_⟩
        · have hsome := (h p.toNat).2 ⟨p, hstands, rfl⟩
          rw [hoffered] at hsome
          cases hsome
        · simp only [stands_passed_iff fun q => (portReply_ne_noSession q.toNat).symm]
          exact h port
  · have htake : opening.take portRequest.length ≠ portRequest := by
      rw [List.take_of_length_le hshort]
      exact hrequest
    rw [Rendezvous.answer_other r htake]
    refine ⟨.other hrequest, fun port => ?_⟩
    simp only [stands_passed_iff fun q => (portReply_ne_nil q.toNat).symm]
    exact h port

theorem Holds.offer (r : Rendezvous) (history : List Happening) (port : UInt16) :
    Holds (r.offer port.toNat) (.offered port :: history) := by
  intro n
  constructor
  · intro hsome
    exact ⟨port, .offered, Option.some.inj hsome⟩
  · rintro ⟨p, hstands, rfl⟩
    rw [stands_offered_iff.1 hstands]
    rfl

/-! ## What every step keeps -/

/-- How much was read of the connection that is served. -/
def Scene.begun (w : Scene) : Nat := ((w.callers[w.served]?).map (·.read.length)).getD 0

/-- What holds of a scene behind `n` steps of the rendezvous. -/
structure Sound (n : Nat) (w : Scene) : Prop where
  /-- The rendezvous has the offer that stands. -/
  holds : Holds w.rendezvous w.history
  /-- The connections were answered in order, each of them once. -/
  order : w.history.filterMap Happening.caller? = (List.range w.served).reverse
  /-- An answered connection got what was due to it. -/
  answered : ∀ since caller reply before, w.history = since ++ .answered caller reply :: before →
    ∃ c, w.callers[caller]? = some c ∧ c.reply = some reply ∧ c.IsRead ∧ Due before c.read reply
  /-- The other ones got nothing. -/
  waiting : ∀ i c, w.served ≤ i → w.callers[i]? = some c → c.reply = none
  /-- No more is read than a request has. -/
  short : ∀ c ∈ w.callers, c.read.length ≤ portRequest.length
  /-- A step reads something or answers. -/
  steps : n ≤ (portRequest.length + 1) * w.served + w.begun

theorem getElem?_set_of_some {α : Type} {l : List α} {i : Nat} {a : α} (h : l[i]? = some a)
    (b : α) (j : Nat) : (l.set i b)[j]? = if i = j then some b else l[j]? := by
  have hlt := (List.getElem?_eq_some_iff.1 h).1
  by_cases hsame : i = j
  · subst hsame
    rw [if_pos rfl, List.getElem?_set_self hlt]
  · rw [if_neg hsame, List.getElem?_set_ne hsame]

namespace Sound

variable {n : Nat} {w w' : Scene}

theorem start : Sound 0 {} where
  holds port := by
    refine iff_of_false nofun ?_
    rintro ⟨p, hstands, -⟩
    cases hstands
  order := rfl
  answered since caller reply before hhistory := by
    cases since with
    | nil => cases hhistory
    | cons => cases hhistory
  waiting i c _ hc := by cases hc
  short c hc := by cases hc
  steps := Nat.zero_le _

/-- More arrives from a peer, or it closes the connection. -/
theorem update (h : Sound n w) {i : Nat} {c c' : Caller} (hc : w.callers[i]? = some c)
    (hread : c'.read = c.read) (hreply : c'.reply = c.reply) (hkept : c.IsRead → c'.IsRead) :
    Sound n { w with callers := w.callers.set i c' } where
  holds := h.holds
  order := h.order
  answered since caller reply before hhistory := by
    obtain ⟨d, hd, htold, hdone, hdue⟩ := h.answered since caller reply before hhistory
    simp only [getElem?_set_of_some hc]
    by_cases hsame : i = caller
    · subst hsame
      obtain rfl : c = d := Option.some.inj (hc.symm.trans hd)
      exact ⟨c', if_pos rfl, hreply.trans htold, hkept hdone, hread ▸ hdue⟩
    · exact ⟨d, by rw [if_neg hsame, hd], htold, hdone, hdue⟩
  waiting j d hj hd := by
    rw [getElem?_set_of_some hc] at hd
    split at hd
    · rename_i hsame
      obtain rfl := Option.some.inj hd
      exact hreply.trans (h.waiting j c hj (hsame ▸ hc))
    · exact h.waiting j d hj hd
  short d hd := by
    rcases List.mem_or_eq_of_mem_set hd with hd | rfl
    · exact h.short d hd
    · rw [hread]
      exact h.short c (List.mem_of_getElem? hc)
  steps := by
    refine Nat.le_trans h.steps (Nat.le_of_eq (congrArg _ ?_))
    rw [Scene.begun, Scene.begun, getElem?_set_of_some hc]
    split
    · rename_i hsame
      rw [← hsame, hc, Option.map_some, Option.map_some, hread]
    · rfl

/-- What the front end and the peers do keeps it. -/
theorem outside (h : Sound n w) (hstep : Outside w w') : Sound n w' := by
  cases hstep with
  | offer port =>
      refine
        { holds := .offer w.rendezvous w.history port, order := h.order
          answered := fun since caller reply before hhistory => ?_
          waiting := h.waiting, short := h.short, steps := h.steps }
      rcases List.cons_eq_append_iff.1 hhistory with ⟨-, hfirst⟩ | ⟨since, -, hhistory⟩
      · cases hfirst
      · exact h.answered since caller reply before hhistory
  | connect =>
      have hnew : ∀ (i : Nat) (c : Caller), (w.callers ++ [({} : Caller)])[i]? = some c →
          w.callers[i]? = some c ∨ c = {} := by
        intro i c hc
        by_cases hlt : i < w.callers.length
        · rw [List.getElem?_append_left hlt] at hc
          exact .inl hc
        · rw [List.getElem?_append_right (by omega)] at hc
          exact .inr (List.mem_singleton.1 (List.mem_of_getElem? hc))
      refine
        { holds := h.holds, order := h.order
          answered := fun since caller reply before hhistory => ?_
          waiting := fun i c hi hc => ?_, short := fun c hc => ?_, steps := ?_ }
      · obtain ⟨c, hc, hrest⟩ := h.answered since caller reply before hhistory
        have hlt := (List.getElem?_eq_some_iff.1 hc).1
        exact ⟨c, by rw [List.getElem?_append_left hlt, hc], hrest⟩
      · rcases hnew i c hc with hc | rfl
        · exact h.waiting i c hi hc
        · rfl
      · rcases List.mem_append.1 hc with hc | hc
        · exact h.short c hc
        · obtain rfl := List.mem_singleton.1 hc
          exact Nat.zero_le _
      · refine Nat.le_trans h.steps (Nat.add_le_add_left ?_ _)
        rw [Scene.begun, Scene.begun]
        cases hcurrent : w.callers[w.served]? with
        | none => exact Nat.zero_le _
        | some c =>
            have hlt := (List.getElem?_eq_some_iff.1 hcurrent).1
            rw [List.getElem?_append_left hlt, hcurrent]
  | deliver hc hopen piece =>
      refine h.update hc rfl rfl ?_
      rintro (hfull | ⟨hclosed, -⟩)
      · exact .inl hfull
      · rw [hopen] at hclosed
        cases hclosed
  | close hc => exact h.update hc rfl rfl fun hread => hread.imp_right fun hend => ⟨rfl, hend.2⟩

/-- The history tells of the connections that the rendezvous is done with. -/
theorem mem_callers_iff (h : Sound n w) {caller : Nat} :
    caller ∈ w.history.filterMap Happening.caller? ↔ caller < w.served := by
  rw [h.order, List.mem_reverse, List.mem_range]

/-- The connection that is served has no answer yet, so what becomes of it concerns no answer that
is told. -/
theorem answered_before (h : Sound n w) {since before : List Happening} {caller : Nat}
    {reply : List UInt8} (hhistory : w.history = since ++ .answered caller reply :: before) :
    ∃ c, caller < w.served ∧ w.callers[caller]? = some c ∧ c.reply = some reply ∧ c.IsRead ∧
      Due before c.read reply := by
  obtain ⟨c, hanswered⟩ := h.answered since caller reply before hhistory
  refine ⟨c, h.mem_callers_iff.1 ?_, hanswered⟩
  rw [hhistory]
  exact List.mem_filterMap.2 ⟨_, List.mem_append_right _ List.mem_cons_self, rfl⟩

theorem begun_eq {c : Caller} (hc : w.callers[w.served]? = some c) : w.begun = c.read.length := by
  rw [Scene.begun, hc]
  rfl

/-- Reading some bytes keeps it. -/
theorem read (h : Sound n w) {c : Caller} (hc : w.callers[w.served]? = some c) {k : Nat}
    (hpositive : 0 < k) (hthere : k ≤ c.arrived.length)
    (hroom : c.read.length + k ≤ portRequest.length) :
    Sound (n + 1)
      { w with
        callers := w.callers.set w.served
          { c with read := c.read ++ c.arrived.take k, arrived := c.arrived.drop k } } := by
  have hlength : (c.read ++ c.arrived.take k).length = c.read.length + k := by
    rw [List.length_append, List.length_take, Nat.min_eq_left hthere]
  refine
    { holds := h.holds, order := h.order
      answered := fun since caller reply before hhistory => ?_
      waiting := fun i d hi hd => ?_, short := fun d hd => ?_, steps := ?_ }
  · obtain ⟨d, hlt, hd, hrest⟩ := h.answered_before hhistory
    exact ⟨d, by rw [getElem?_set_of_some hc, if_neg (by omega), hd], hrest⟩
  · rw [getElem?_set_of_some hc] at hd
    split at hd
    · obtain rfl := Option.some.inj hd
      exact h.waiting w.served c (Nat.le_refl _) hc
    · exact h.waiting i d hi hd
  · rcases List.mem_or_eq_of_mem_set hd with hd | rfl
    · exact h.short d hd
    · show (c.read ++ c.arrived.take k).length ≤ _
      rw [hlength]
      exact hroom
  · have hbefore := begun_eq hc
    have hsteps := h.steps
    show n + 1 ≤ (portRequest.length + 1) * w.served + Scene.begun _
    rw [Scene.begun, getElem?_set_of_some hc, if_pos rfl, Option.map_some, Option.getD_some,
      hlength]
    omega

/-- Answering a connection keeps it. -/
theorem answer (h : Sound n w) {c : Caller} (hc : w.callers[w.served]? = some c)
    (hread : c.IsRead) :
    Sound (n + 1)
      { rendezvous := (w.rendezvous.answer c.read).1
        callers := w.callers.set w.served
          { c with reply := some (w.rendezvous.answer c.read).2 }
        served := w.served + 1
        history := .answered w.served (w.rendezvous.answer c.read).2 :: w.history } := by
  have hshort := h.short c (List.mem_of_getElem? hc)
  obtain ⟨hdue, hholds⟩ := h.holds.answer hshort w.served
  refine
    { holds := hholds, order := ?_
      answered := fun since caller reply before hhistory => ?_
      waiting := fun i d hi hd => ?_, short := fun d hd => ?_, steps := ?_ }
  · show w.served :: w.history.filterMap Happening.caller? = (List.range (w.served + 1)).reverse
    rw [h.order, List.range_succ, List.reverse_append]
    rfl
  · simp only [getElem?_set_of_some hc]
    rcases List.cons_eq_append_iff.1 hhistory with ⟨-, hfirst⟩ | ⟨since, -, hhistory⟩
    · obtain ⟨hlatest, rfl⟩ := List.cons.inj hfirst
      obtain ⟨rfl, rfl⟩ := Happening.answered.inj hlatest
      exact ⟨_, if_pos rfl, rfl, hread, hdue⟩
    · obtain ⟨d, hlt, hd, hrest⟩ := h.answered_before hhistory
      exact ⟨d, by rw [if_neg (by omega), hd], hrest⟩
  · have hne : w.served ≠ i := by
      intro hsame
      subst hsame
      exact Nat.not_succ_le_self _ hi
    rw [getElem?_set_of_some hc, if_neg hne] at hd
    exact h.waiting i d (Nat.le_of_succ_le hi) hd
  · rcases List.mem_or_eq_of_mem_set hd with hd | rfl
    · exact h.short d hd
    · exact hshort
  · have hbefore := begun_eq hc
    have hsteps := h.steps
    show n + 1 ≤ (portRequest.length + 1) * (w.served + 1) + _
    rw [Nat.mul_succ]
    omega

/-- What the rendezvous does keeps it, and is counted. -/
theorem serve (h : Sound n w) (hstep : Serving w w') : Sound (n + 1) w' := by
  cases hstep with
  | read hc hpositive hthere hroom => exact h.read hc hpositive hthere hroom
  | answer hc hread => exact h.answer hc hread

theorem of_run (h : Run n w) : Sound n w := by
  induction h with
  | start => exact start
  | outside _ hstep ih => exact ih.outside hstep
  | serve _ hstep ih => exact ih.serve hstep

/-- The connections with a reply are those that the rendezvous is done with. -/
theorem isSome_reply_iff (h : Sound n w) {caller : Nat} {c : Caller}
    (hc : w.callers[caller]? = some c) : c.reply.isSome = true ↔ caller < w.served := by
  constructor
  · intro hsome
    by_contra hwaits
    rw [h.waiting caller c (Nat.le_of_not_lt hwaits) hc] at hsome
    cases hsome
  · intro hlt
    obtain ⟨e, he, hcaller⟩ := List.mem_filterMap.1 (h.mem_callers_iff.2 hlt)
    cases e with
    | offered port => cases hcaller
    | answered other reply =>
        obtain rfl := Option.some.inj hcaller
        obtain ⟨since, before, hhistory⟩ := List.append_of_mem he
        obtain ⟨d, hd, htold, -⟩ := h.answered since other reply before hhistory
        obtain rfl : c = d := Option.some.inj (hc.symm.trans hd)
        rw [htold]
        rfl

/-- Between two offers at most one target gets a port. -/
theorem pairwise_handsOut (h : Sound n w) {since between before : List Happening}
    (hhistory : w.history = since ++ between ++ before)
    (hno : ∀ port, .offered port ∉ between) :
    between.Pairwise fun a b => ¬(a.HandsOut ∧ b.HandsOut) := by
  induction between generalizing since with
  | nil => exact List.Pairwise.nil
  | cons a rest ih =>
      have hrest : ∀ port, .offered port ∉ rest := fun port hport =>
        hno port (List.mem_cons_of_mem a hport)
      have hbehind : w.history = (since ++ [a]) ++ rest ++ before := by
        simpa [List.append_assoc] using hhistory
      refine List.pairwise_cons.2 ⟨?_, ih hbehind hrest⟩
      rintro b hb ⟨⟨caller, port, rfl⟩, hhands⟩
      obtain ⟨newer, older, rfl⟩ := List.append_of_mem hb
      have hsplit : w.history = since ++ .answered caller (portReply port.toNat) ::
          (newer ++ b :: (older ++ before)) := by
        simpa [List.append_assoc] using hhistory
      -- a port was due to the later one, so an offer stood then that was made since the earlier one
      obtain ⟨c, -, -, -, hdue⟩ := h.answered _ _ _ _ hsplit
      generalize c.read = opening at hdue
      generalize hreply : portReply port.toNat = reply at hdue
      cases hdue with
      | other => exact portReply_ne_nil _ hreply
      | noSession => exact portReply_ne_noSession _ hreply
      | port hstands =>
          exact hrest _ (List.mem_append_left _ (hstands.offered_since hhands))

/-- After so many steps of the rendezvous a connection is answered. -/
theorem lt_served (h : Sound n w) {caller : Nat}
    (hsteps : (portRequest.length + 1) * (caller + 1) ≤ n) : caller < w.served := by
  have hbegun : w.begun ≤ portRequest.length := by
    rw [Scene.begun]
    cases hc : w.callers[w.served]? with
    | none => exact Nat.zero_le _
    | some c => exact h.short c (List.mem_of_getElem? hc)
  have hbound := h.steps
  by_contra hwaits
  have hmul : (portRequest.length + 1) * (w.served + 1) ≤
      (portRequest.length + 1) * (caller + 1) := Nat.mul_le_mul_left _ (by omega)
  rw [Nat.mul_succ] at hmul
  omega

end Sound

/-- A connection whose peer has sent enough, or sends no more, keeps the rendezvous going. -/
theorem exists_serving {w : Scene} {c : Caller} (hc : w.callers[w.served]? = some c)
    (hshort : c.read.length ≤ portRequest.length) (hcomplete : c.IsComplete) :
    ∃ w', Serving w w' := by
  by_cases hfull : c.read.length = portRequest.length
  · exact ⟨_, .answer hc (.inl hfull)⟩
  · by_cases hnothing : c.arrived = []
    · refine ⟨_, .answer hc (.inr ⟨?_, hnothing⟩)⟩
      refine hcomplete.resolve_right fun henough => hfull ?_
      rw [hnothing, List.append_nil] at henough
      exact Nat.le_antisymm hshort henough
    · have hthere : 1 ≤ c.arrived.length := List.length_pos_iff.2 hnothing
      exact ⟨_, .read hc Nat.one_pos hthere (by omega)⟩

/-! ## Offers and connections -/

/-- What becomes of connections and offers, in every order of steps. A connection that opens with
anything else than a request gets no reply and leaves the offer that stands. One that opens with a
request gets the latest offer, unless a target has it already, and takes it, or else it gets the
reply that there is none; and the target reads just that, in whatever pieces the reply comes. The
rendezvous answers the connections in order, each of them once, and has the offer that stands.
Between two offers at most one target gets a port. The rendezvous goes on with a connection whose
peer has closed it or has sent enough, and has answered it after a bounded number of its steps. -/
theorem offers_handed_out_once {n : Nat} {w : Scene} (h : Run n w) :
    (∀ since caller reply before, w.history = since ++ .answered caller reply :: before →
      ∃ c, w.callers[caller]? = some c ∧ c.reply = some reply ∧
        (c.opening ≠ portRequest →
          reply = [] ∧
            ∀ port, Stands (.answered caller reply :: before) port ↔ Stands before port) ∧
        (c.opening = portRequest → ∀ port, Stands before port →
          reply = portReply port.toNat ∧
            (∀ other, ¬Stands (.answered caller reply :: before) other) ∧
            ∀ pieces, pieces.flatten = reply → readPieces [] pieces = .session port.toNat) ∧
        (c.opening = portRequest → (∀ port, ¬Stands before port) →
          reply = Text.Utf8.encode noSession ∧
            ∀ pieces, pieces.flatten = reply → readPieces [] pieces = .noSession)) ∧
    (∀ caller c, w.callers[caller]? = some c → (c.reply.isSome = true ↔ caller < w.served)) ∧
    w.history.filterMap Happening.caller? = (List.range w.served).reverse ∧
    (∀ port : Nat, w.rendezvous.offered = some port ↔
      ∃ p, Stands w.history p ∧ p.toNat = port) ∧
    (∀ since between before, w.history = since ++ between ++ before →
      (∀ port, .offered port ∉ between) →
      between.Pairwise fun a b => ¬(a.HandsOut ∧ b.HandsOut)) ∧
    (∀ caller, (portRequest.length + 1) * (caller + 1) ≤ n → caller < w.served) ∧
    ∀ c, w.callers[w.served]? = some c → c.IsComplete → ∃ w', Serving w w' := by
  have hsound := Sound.of_run h
  refine ⟨fun since caller reply before hhistory => ?_, fun _ _ hc => hsound.isSome_reply_iff hc,
    hsound.order, hsound.holds, fun _ _ _ hhistory hno => hsound.pairwise_handsOut hhistory hno,
    fun _ hsteps => hsound.lt_served hsteps,
    fun c hc => exists_serving hc (hsound.short c (List.mem_of_getElem? hc))⟩
  obtain ⟨c, hc, htold, hread, hdue⟩ := hsound.answered since caller reply before hhistory
  have hopening := hread.opening_eq (hsound.short c (List.mem_of_getElem? hc))
  refine ⟨c, hc, htold, ?_⟩
  rw [hopening]
  generalize c.read = opening at hdue
  cases hdue with
  | other hother =>
      refine ⟨fun _ => ⟨rfl, fun port => ?_⟩, fun hrequest => absurd hrequest hother,
        fun hrequest => absurd hrequest hother⟩
      exact stands_passed_iff fun q => (portReply_ne_nil q.toNat).symm
  | @port given hstands =>
      refine ⟨fun hother => absurd rfl hother, fun _ port hport => ?_,
        fun _ hnone => absurd hstands (hnone given)⟩
      obtain rfl := hport.unique hstands
      refine ⟨rfl, fun _ => not_stands_handed, fun pieces hpieces => ?_⟩
      rw [readPieces_eq, List.nil_append, hpieces]
      exact readPort_portReply port.toNat_lt_size
  | noSession hnone =>
      refine ⟨fun hother => absurd rfl hother, fun _ port hport => absurd hport (hnone port),
        fun _ _ => ⟨rfl, fun pieces hpieces => ?_⟩⟩
      rw [readPieces_eq, List.nil_append, hpieces]
      exact readPort_noSession

/-- Two offers, a peer that says something else, and a request in two pieces: it takes the latest
offer, which is read back from any pieces of the reply. -/
theorem offers_handed_out_once_pieces :
    ∃ (n : Nat) (w : Scene), Run n w ∧
      w.history = [.answered 1 (portReply 4712), .offered 4712, .answered 0 [], .offered 4711] ∧
      (∀ port, ¬Stands w.history port) ∧
      ∀ pieces, pieces.flatten = portReply 4712 → readPieces [] pieces = .session 4712 := by
  obtain ⟨n, w, hrun, hhistory, hrequest⟩ : ∃ n w, Run n w ∧
      w.history = [.answered 1 (portReply 4712), .offered 4712, .answered 0 [], .offered 4711] ∧
      (w.callers[1]?).map Caller.opening = some portRequest := by
    have hoffered := (Run.start.outside (.offer 4711)).outside .connect
    have hclosed := (hoffered.outside (.deliver (i := 0) rfl rfl [104, 105])).outside
      (.close (i := 0) rfl)
    have hpassed := (hclosed.serve (.read (n := 2) rfl (by decide) (by decide)
      (by decide +kernel))).serve (.answer rfl (.inr ⟨rfl, rfl⟩))
    have hagain := (hpassed.outside .connect).outside (.offer 4712)
    have hfirst := (hagain.outside
      (.deliver (i := 1) rfl rfl (Text.Utf8.encode "get-session"))).serve
        (.read (n := 11) rfl (by decide) (by decide +kernel) (by decide +kernel))
    have hsecond := (hfirst.outside (.deliver (i := 1) rfl rfl (Text.Utf8.encode "-port"))).serve
      (.read (n := 5) rfl (by decide) (by decide +kernel) (by decide +kernel))
    have hrun := hsecond.serve (.answer rfl (.inl (by decide +kernel)))
    exact ⟨_, _, hrun, by decide +kernel, by decide +kernel⟩
  obtain ⟨hanswered, -⟩ := offers_handed_out_once hrun
  obtain ⟨c, hc, -, -, hport, -⟩ := hanswered [] 1 (portReply 4712) _ hhistory
  have hopening : c.opening = portRequest := by
    rw [hc] at hrequest
    exact Option.some.inj hrequest
  obtain ⟨-, htaken, hread⟩ := hport hopening 4712 .offered
  refine ⟨n, w, hrun, hhistory, ?_, hread⟩
  rw [hhistory]
  exact htaken

end ScriptDebugger.Bootstrap
