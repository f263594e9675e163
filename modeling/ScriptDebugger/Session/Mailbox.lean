import ScriptDebugger.Wire.Message
/-!
# Mailboxes

A session lets one request be on its way at a time. A caller claims the session, sends, waits until
there is a reply, takes it, and releases the session. The mailbox is what the callers and the
reading side share: whether the session is claimed, the replies that were not taken, and whether
the connection has ended.

## Main results

* `claim_granted_iff` — a claim is granted exactly while the session is open and not claimed.
* `take_deliver_of_empty` — a reply delivered into an empty inbox is the one that is taken next.
* `release_busy`, `claim_release` — after a release, an open session can be claimed.
-/

namespace ScriptDebugger.Session

open Wire (DebuggerMessage)

/-- What the callers of a session and its reading side share. -/
structure Mailbox where
  /-- Whether a request is on its way. -/
  busy : Bool := false
  /-- The replies that came and were not taken, oldest first. -/
  inbox : List DebuggerMessage := []
  /-- Whether the connection has ended. -/
  closed : Bool := false
  deriving DecidableEq

/-- The outcome of a claim. -/
inductive Claim
  /-- The session is the caller's. -/
  | granted
  /-- The caller has to wait for its turn. -/
  | wait
  /-- Another request is on its way. -/
  | busy
  /-- The connection has ended. -/
  | closed
  deriving DecidableEq, Repr

/-- The outcome of looking for a reply. -/
inductive Pickup
  /-- A reply. -/
  | reply (message : DebuggerMessage)
  /-- There is none yet. -/
  | wait
  /-- There is none, and the connection has ended. -/
  | closed
  deriving DecidableEq

namespace Mailbox

/-- Claims the session. While another request is on its way, a caller waits for its turn or gives
up, as it likes. -/
def claim (m : Mailbox) (waitsIdle : Bool) : Mailbox × Claim :=
  if m.closed then (m, .closed)
  else if m.busy then (m, if waitsIdle then .wait else .busy)
  else ({ m with busy := true }, .granted)

/-- Puts replies behind those that are there. -/
def deliver (m : Mailbox) (replies : List DebuggerMessage) : Mailbox :=
  { m with inbox := m.inbox ++ replies }

/-- Takes the oldest reply. -/
def take (m : Mailbox) : Mailbox × Pickup :=
  match m.inbox with
  | message :: inbox => ({ m with inbox }, .reply message)
  | [] => (m, if m.closed then .closed else .wait)

/-- Gives the session back. -/
def release (m : Mailbox) : Mailbox := { m with busy := false }

/-- Ends the connection. -/
def close (m : Mailbox) : Mailbox := { m with closed := true }

theorem claim_granted_iff (m : Mailbox) (waitsIdle : Bool) :
    (m.claim waitsIdle).2 = .granted ↔ m.closed = false ∧ m.busy = false := by
  cases hc : m.closed <;> cases hb : m.busy <;> cases waitsIdle <;> simp [claim, hc, hb]

theorem claim_busy_of_granted {m : Mailbox} {waitsIdle : Bool}
    (h : (m.claim waitsIdle).2 = .granted) : (m.claim waitsIdle).1.busy = true := by
  obtain ⟨hc, hb⟩ := (claim_granted_iff m waitsIdle).mp h
  simp [claim, hc, hb]

theorem of_claim_granted {m m' : Mailbox} {waitsIdle : Bool}
    (h : m.claim waitsIdle = (m', .granted)) :
    m.closed = false ∧ m.busy = false ∧ m' = { m with busy := true } := by
  obtain ⟨hclosed, hbusy⟩ := (claim_granted_iff m waitsIdle).1 (by rw [h])
  obtain ⟨busy, inbox, closed⟩ := m
  obtain rfl : closed = false := hclosed
  obtain rfl : busy = false := hbusy
  exact ⟨rfl, rfl, (Prod.mk.inj h).1.symm⟩

theorem of_take_reply {m m' : Mailbox} {reply : DebuggerMessage} (h : m.take = (m', .reply reply)) :
    m.inbox = reply :: m'.inbox ∧ m'.busy = m.busy ∧ m'.closed = m.closed := by
  obtain ⟨busy, inbox, closed⟩ := m
  cases inbox with
  | nil => cases closed <;> cases h
  | cons first rest =>
      cases h
      exact ⟨rfl, rfl, rfl⟩

theorem of_take_closed {m m' : Mailbox} (h : m.take = (m', .closed)) :
    m.inbox = [] ∧ m.closed = true := by
  obtain ⟨busy, inbox, closed⟩ := m
  cases inbox with
  | nil =>
      cases closed with
      | true => exact ⟨rfl, rfl⟩
      | false => cases h
  | cons first rest => cases h

theorem of_take_wait {m m' : Mailbox} (h : m.take = (m', .wait)) :
    m.inbox = [] ∧ m.closed = false := by
  obtain ⟨busy, inbox, closed⟩ := m
  cases inbox with
  | nil =>
      cases closed with
      | true => cases h
      | false => exact ⟨rfl, rfl⟩
  | cons first rest => cases h

theorem take_deliver_of_empty (m : Mailbox) (message : DebuggerMessage) (h : m.inbox = []) :
    (m.deliver [message]).take = (m, .reply message) := by
  obtain ⟨busy, inbox, closed⟩ := m
  simp only at h
  subst h
  rfl

@[simp]
theorem release_busy (m : Mailbox) : m.release.busy = false := rfl

theorem claim_release (m : Mailbox) (waitsIdle : Bool) (h : m.closed = false) :
    (m.release.claim waitsIdle).2 = .granted := by
  simp [claim, release, h]

end Mailbox

end ScriptDebugger.Session
