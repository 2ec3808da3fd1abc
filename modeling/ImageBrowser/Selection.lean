import ImageBrowser.Fault
import ImageBrowser.Stone
import ImageBrowser.Table

/-!
The sessions that are logged in, and which of them is selected. Each operation here is one step
that no other caller sees the inside of; whom to tell about a change is decided by its answer.
-/

namespace ImageBrowser

/-- A session as the browser uses it. Handles are told apart by number, not by session id. -/
structure Handle where
  number : Nat
  sessionId : Value
  connection : Connection
  deriving DecidableEq, Repr

structure Enrolment where
  id : Value
  handle : Handle
  metadata : Value
  deriving DecidableEq, Repr

/-- Ids that compare equal are the same id. -/
structure Selection where
  enrolled : Table Value Enrolment := .empty
  selected : Option Value := none
  deriving DecidableEq, Repr

namespace Selection

def emptyMetadata : Value := .object []

def find? (s : Selection) (id : Value) : Option Enrolment := s.enrolled.find? id.canonical

def contains (s : Selection) (id : Value) : Bool := s.enrolled.contains id.canonical

def ids (s : Selection) : List Value := s.enrolled.values.map (·.id)

def session? (s : Selection) (id : Value) : Option Handle := (s.find? id).map (·.handle)

def metadata? (s : Selection) (id : Value) : Option Value := (s.find? id).map (·.metadata)

def register (s : Selection) (h : Handle) (metadata : Value) : Selection :=
  { s with
    enrolled := s.enrolled.insert h.sessionId.canonical
      { id := ((s.find? h.sessionId).map (·.id)).getD h.sessionId
        handle := h
        metadata := if metadata.isTruthy then metadata else emptyMetadata } }

/-- While no session is selected, the one whose id is nothing counts as selected. -/
def isSelected (s : Selection) (id : Value) : Bool := (s.selected.getD .null).equals id

def remove (s : Selection) (id : Value) : Option (Handle × Bool) × Selection :=
  match s.session? id with
  | none => (none, s)
  | some h =>
    (some (h, s.isSelected id),
      { enrolled := s.enrolled.erase id.canonical
        selected := if s.isSelected id then none else s.selected })

def clear (s : Selection) : Bool × Selection := (s.selected.isSome, {})

def select (s : Selection) (id : Option Value) : Option Bool × Selection :=
  if (id.map s.contains).getD true then
    (some (!s.isSelected (id.getD .null)), { s with selected := id })
  else (none, s)

def selectedHandle (s : Selection) : Option Handle := s.selected.bind s.session?

end Selection

end ImageBrowser
