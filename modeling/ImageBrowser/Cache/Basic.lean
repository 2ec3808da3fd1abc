import ImageBrowser.Fault
import ImageBrowser.Table

/-!
A cache in which callers that want the same entry share one fetch. Nothing in it expires: clearing
drops everything at once and begins a new epoch, and a fetch that began in an earlier epoch still
answers those who wait for it but is not stored.

Each operation is one step that no other caller sees the inside of. A caller that finds neither an
entry nor a fetch owns the fetch it registers; when the fetch ends it first settles the tables and
then publishes the outcome to those who joined.
-/

namespace ImageBrowser

structure Flight where
  ticket : Nat
  epoch : Nat
  deriving DecidableEq, Repr

structure Cache (κ ε : Type) where
  epoch : Nat := 0
  stored : Table κ ε := .empty
  inFlight : Table κ Flight := .empty
  nextTicket : Nat := 0
  outcomes : Table Nat (Except Fault ε) := .empty

/-- What a caller finds: the entry, a fetch to wait for, or that the fetch is its own. -/
inductive Lookup (ε : Type)
  | found (entry : ε)
  | joined (ticket : Nat)
  | owned (ticket : Nat)

namespace Cache

variable {κ ε : Type} [DecidableEq κ]

def clear (c : Cache κ ε) : Cache κ ε :=
  { c with epoch := c.epoch + 1, stored := .empty, inFlight := .empty }

def request (c : Cache κ ε) (k : κ) : Lookup ε × Cache κ ε :=
  match c.stored.find? k, c.inFlight.find? k with
  | some e, _ => (.found e, c)
  | none, some f => (.joined f.ticket, c)
  | none, none =>
    (.owned c.nextTicket,
      { c with
        inFlight := c.inFlight.insert k ⟨c.nextTicket, c.epoch⟩
        nextTicket := c.nextTicket + 1 })

def startedIn? (c : Cache κ ε) (k : κ) (ticket : Nat) : Option Nat :=
  (c.inFlight.find? k).bind fun f => if f.ticket = ticket then some f.epoch else none

def forget (c : Cache κ ε) (k : κ) (ticket : Nat) : Cache κ ε :=
  if (c.startedIn? k ticket).isSome then { c with inFlight := c.inFlight.erase k } else c

/-- The end of a fetch: its registration goes, and its entry is stored if no epoch has passed. -/
def settle (c : Cache κ ε) (k : κ) (ticket : Nat) (outcome : Except Fault ε) : Cache κ ε :=
  let forgotten := c.forget k ticket
  match outcome with
  | .ok e =>
    if c.startedIn? k ticket = some c.epoch then
      { forgotten with stored := forgotten.stored.insert k e }
    else forgotten
  | .error _ => forgotten

def publish (c : Cache κ ε) (ticket : Nat) (outcome : Except Fault ε) : Cache κ ε :=
  { c with outcomes := c.outcomes.insert ticket outcome }

def outcome? (c : Cache κ ε) (ticket : Nat) : Option (Except Fault ε) := c.outcomes.find? ticket

end Cache

end ImageBrowser
