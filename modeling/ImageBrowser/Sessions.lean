import ImageBrowser.Calls

/-!
Adding, selecting and removing sessions, and telling listeners. A change is made in one step, and
the listeners alive by then are told one after another when it is over; a listener may itself
select or remove sessions.
-/

namespace ImageBrowser

def tellAll {ℓ : Type} (tell : ℓ → Program Unit) : List ℓ → Program Unit
  | [] => Program.done ()
  | l :: ls => do
    tell l
    tellAll tell ls

namespace Tree

def clearCache : Program Unit := do
  Program.step .clearCache
  Program.log (.cacheCleared (← Program.step .epoch))

def refresh : Program Unit := do
  clearCache
  let listeners ← Program.step .beginTreeNotice
  (tellAll (fun l => Program.tell l .treeChanged) listeners).ensure
    (Program.step (.endTreeNotice listeners))

end Tree

namespace Sessions

def tellListener (id : Option Value) : Listener → Program Unit
  | .tree => Tree.refresh
  | .outside n => Program.tell n (.selectionChanged id)

def announce (id : Option Value) : Program Unit := do
  let listeners ← Program.step .beginSelectionNotice
  (tellAll (tellListener id) listeners).ensure (Program.step (.endSelectionNotice listeners))

def add (connection : Connection) (metadata id : Value) : Program Value := do
  let id ← if id.isTruthy then Program.ofExcept id.asKey else Program.step .freshId
  Program.step (.openSession connection id metadata)
  return id

def adopt (h : Handle) (metadata : Value) : Program Value := do
  let _ ← Program.ofExcept h.sessionId.asKey
  Program.step (.adopt h metadata)
  return h.sessionId

def orMissing {α : Type} (id : Value) : Option α → Program α
  | some a => Program.done a
  | none => Program.fail (.missingKey id)

def get (id : Value) : Program Handle := do
  let id ← Program.ofExcept id.asKey
  orMissing id (← Program.step (.sessionOf id))

def metadata (id : Value) : Program Value := do
  let id ← Program.ofExcept id.asKey
  orMissing id (← Program.step (.metadataOf id))

def contains (id : Value) : Program Bool := do
  let id ← Program.ofExcept id.asKey
  return (← Program.step (.sessionOf id)).isSome

def ids : Program (List Value) := Program.step .sessionIds

def selectedId : Program (Option Value) := Program.step .selectedId

def isSelected (id : Value) : Program Bool := Program.step (.isSelected id)

def selected : Program (Option Handle) := Program.step .selectedSession

def remove (id : Value) : Program Handle := do
  let id ← Program.ofExcept id.asKey
  let (h, wasSelected) ← orMissing id (← Program.step (.removeSession id))
  if wasSelected then announce none
  return h

def clear : Program Unit := do
  if ← Program.step .clearSessions then announce none

def optional (id : Value) : Option Value := if id = .null then none else some id

def select (id : Value) : Program Unit := do
  let id ← Program.ofExcept id.asKey
  if ← orMissing id (← Program.step (.selectSession (optional id))) then
    announce (optional id)

end Sessions

end ImageBrowser
