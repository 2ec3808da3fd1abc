import ImageBrowser.Tools.Response
import ImageBrowser.Tools.Signature
import ImageBrowser.Tree

/-!
What each tool does. A tool answers failures of the stone and refusals in its response, and passes
on all others. Tools that change the image or a transaction refresh the tree when they are done.
-/

namespace ImageBrowser

structure Switches where
  allowMutation : Bool
  allowCompile : Bool
  deriving DecidableEq, Repr

namespace Tools

abbrev Fields := List (String × Value)

def answering {α : Type} (p : Program α) (handles : Fault → Bool)
    (answer : Fault → Program Response) (next : α → Program Response) : Program Response := do
  match ← p.attempt with
  | .ok a => next a
  | .error f => if handles f then answer f else Program.fail f

def failing (details : Fields) (f : Fault) : Program Response :=
  Program.done (.ofFault f details)

def disabled (t : Tool) (switch : String) : Response :=
  .complaint (t.name ++ " is disabled. Start stonebrowser-mcp with " ++ switch ++ " to enable.")

def selectedHandle : Program Handle := do
  match ← Sessions.selected with
  | some h => return h
  | none => Program.fail (.refused .notConnected)

def handleFor (id : Value) : Program Handle := do
  if ← Sessions.contains id then Sessions.get id else Program.fail (.refused .unknownSession)

def inSelected {α : Type} (body : Handle → Program α) : Program α := do
  body (← selectedHandle)

def query (name : String) (details : Fields) (body : Handle → Program Value) :
    Program Response :=
  answering (inSelected body) Fault.isExpected (failing details) fun v =>
    return .success ((name, v) :: details)

def mutation (s : Switches) (t : Tool) (details : Fields)
    (body : Handle → Program (Option Value)) : Program Response :=
  if s.allowMutation then
    answering (inSelected body) Fault.isExpected (failing details) fun v => do
      Tree.refresh
      return .success (details ++ v.toList.map fun v => ("result", v))
  else Program.done (disabled t "--allow-mutation")

def control (body : Handle → Program Unit) : Program Response :=
  answering (inSelected body) Fault.isExpected (failing []) fun _ => do
    Tree.refresh
    return .success []

def quietly (body : Handle → Program Unit) (h : Handle) : Program (Option Value) := do
  body h
  return none

def loginFor? (mode user password stone host service : Value) : Option Login :=
  if mode = .text "linked" then some (.linked user password stone)
  else if mode = .text "rpc" then some (.remoteOn user password host stone service)
  else none

def isSelected (id : Value) : Program Value := Value.flag <$> Sessions.isSelected id

/-- The first session to be connected is selected. -/
def enroll (connection : Connection) (mode summary : Value) : Program Response := do
  let id ← Sessions.add connection (.object [("connection_mode", mode)]) .null
  if (← Sessions.selected).isNone then Sessions.select id
  return .success
    [("session_id", id), ("connection_mode", mode), ("session", summary),
      ("selected", ← isSelected id)]

/-- A connection that cannot say what it is connected to is closed again. -/
def connect (mode user password stone host service : Value) : Program Response :=
  match loginFor? mode user password stone host service with
  | none => Program.done
    (.complaint "Invalid connection_mode value. Expected 'linked' or 'rpc'.")
  | some l =>
    answering l.open Fault.isRefusal (failing []) fun connection =>
      answering connection.summary Fault.isFromStone
        (fun f => do
          connection.logOut
          return .ofFault f [])
        (enroll connection mode)

def unknownSession : Response := .complaint Refusal.unknownSession.message

def disconnect (id : Value) : Program Response := do
  if ← Sessions.contains id then
    let h ← Sessions.remove id
    answering h.connection.logOut Fault.isFromStone (failing [("session_id", id)]) fun _ =>
      return .success [("session_id", id)]
  else return unknownSession

def sessionRow (id : Value) : Program Value := do
  let metadata ← Sessions.metadata id
  return .object [("session_id", id), ("metadata", metadata), ("selected", ← isSelected id)]

def rowsFor {α : Type} (row : α → Program Value) : List α → Program (List Value)
  | [] => return []
  | a :: as => return (← row a) :: (← rowsFor row as)

def listSessions : Program Response := do
  return .success [("sessions", .list (← rowsFor sessionRow (← Sessions.ids)))]

def selectSession (id : Value) : Program Response := do
  if ← Sessions.contains id then
    Sessions.select id
    return .success [("session_id", id)]
  else return unknownSession

def isMalformed : Fault → Bool
  | .invalid _ => true
  | .mismatch _ => true
  | _ => false

def childRow (node : Node) : Program Value := do
  return .object [("node", node.toValue), ("item", (← Tree.item node).toValue)]

/-- The notices of a failure are those in the one list that all expansions share. -/
def browseNode (node : Option Node) : Program Response := do
  Program.step .clearNotices
  let children ← Tree.children .gather node
  let ok := (← Program.step .notices).isEmpty
  let rows ← rowsFor childRow children
  let notices ← Program.step .notices
  let error := if notices.isEmpty then none else some ⟨"; ".intercalate notices, []⟩
  return ⟨ok, error, [("children", .list rows)]⟩

def nodeOf (v : Value) : Program (Option Node) :=
  if v = .null then Program.done none else some <$> Program.ofExcept (Node.ofValue v)

def browse (node : Value) : Program Response :=
  answering (nodeOf node) isMalformed (failing []) browseNode

def refresh : Program Response := do
  Tree.refresh
  return .success []

def contentAt (l : Location) : Program String := do
  let h ← handleFor (.text l.sessionId)
  match l.document with
  | .definition => h.classDefinition (.text l.className)
  | .comment => h.classComment (.text l.className)
  | .method isMeta _ selector environment =>
    h.methodSource (.text l.className) (.flag isMeta) (.text selector) (.whole environment)

def contentOf (node locator : Value) : Program String := do
  if locator ≠ .null then contentAt (← Program.ofExcept (Locator.parseValue locator))
  else if node ≠ .null then Tree.content (← Program.ofExcept (Node.ofValue node))
  else Program.fail (.refused .nothingAsked)

def getContent (node locator : Value) : Program Response :=
  answering (contentOf node locator) (fun f => f.isExpected || isMalformed f) (failing [])
    fun s => return .success [("content", .text s)]

def compileMethod (s : Switches) (className source isMeta category environment : Value) :
    Program Response :=
  if s.allowCompile then
    answering (inSelected fun h => h.compileMethod className isMeta category source environment)
      Fault.isExpected (failing [("class_name", className)]) fun _ => do
        Tree.refresh
        return .success [("class_name", className), ("category", category)]
  else Program.done (disabled .compileMethod "--allow-compile")

def moveDictionary (s : Switches) (name direction : Value) : Program Response :=
  let details := [("dictionary_name", name)]
  if direction = .text "up" then
    mutation s .moveDictionary details (quietly fun h => h.moveDictionaryUp name)
  else if direction = .text "down" then
    mutation s .moveDictionary details (quietly fun h => h.moveDictionaryDown name)
  else Program.done (.complaint "Invalid direction value. Expected 'up' or 'down'.")

def run (s : Switches) : Tool → List Value → Program Response
  | .connect, [mode, user, password, stone, host, service] =>
    connect mode user password stone host service
  | .disconnect, [id] => disconnect id
  | .listSessions, [] => listSessions
  | .selectSession, [id] => selectSession id
  | .browse, [node] => browse node
  | .refresh, [] => refresh
  | .getContent, [node, locator] => getContent node locator
  | .listClasses, [dictionary] =>
    query "classes" [("dictionary_name", dictionary)] fun h =>
      Value.texts <$> h.classNames dictionary
  | .listMethodCategories, [cls, isMeta] =>
    query "categories" [("class_name", cls)] fun h => Value.texts <$> h.methodCategories cls isMeta
  | .listMethods, [cls, category, isMeta] =>
    query "selectors" [("class_name", cls), ("category", category)] fun h =>
      Value.texts <$> h.methodSelectors cls isMeta category
  | .allClassNames, [] =>
    query "classes" [] fun h =>
      return .list ((← h.allClassNames).map fun e => e.record.toValue)
  | .classHierarchy, [cls] =>
    query "hierarchy" [("class_name", cls)] fun h =>
      return .list ((← h.classHierarchy cls).map fun e => e.record.toValue)
  | .searchMethodSource, [term, ignoreCase] =>
    query "result" [("term", term)] fun h =>
      SearchResults.toValue <$> h.searchMethodSource term ignoreCase
  | .sendersOf, [selector, environment] =>
    query "result" [("selector", selector)] fun h =>
      SearchResults.toValue <$> h.sendersOf selector environment
  | .implementorsOf, [selector, environment] =>
    query "result" [("selector", selector)] fun h =>
      SearchResults.toValue <$> h.implementorsOf selector environment
  | .compileMethod, [cls, source, isMeta, category, environment] =>
    compileMethod s cls source isMeta category environment
  | .compileClassDefinition, [source] =>
    mutation s .compileClassDefinition [] fun h =>
      return some (.text (← h.compileClassDefinition source))
  | .setClassComment, [cls, comment] =>
    mutation s .setClassComment [("class_name", cls)]
      (quietly fun h => h.setClassComment cls comment)
  | .deleteMethod, [cls, selector, isMeta] =>
    mutation s .deleteMethod [("class_name", cls), ("selector", selector)]
      (quietly fun h => h.deleteMethod cls isMeta selector)
  | .recategorizeMethod, [cls, selector, category, isMeta] =>
    mutation s .recategorizeMethod [("class_name", cls), ("selector", selector)]
      (quietly fun h => h.recategorizeMethod cls isMeta selector category)
  | .renameCategory, [cls, old, new, isMeta] =>
    mutation s .renameCategory [("class_name", cls)]
      (quietly fun h => h.renameCategory cls isMeta old new)
  | .deleteClass, [dictionary, cls] =>
    mutation s .deleteClass [("class_name", cls)] (quietly fun h => h.deleteClass dictionary cls)
  | .moveClass, [source, destination, cls] =>
    mutation s .moveClass [("class_name", cls)]
      (quietly fun h => h.moveClass source destination cls)
  | .addDictionary, [name] =>
    mutation s .addDictionary [("dictionary_name", name)] (quietly fun h => h.addDictionary name)
  | .moveDictionary, [name, direction] => moveDictionary s name direction
  | .commit, [] => mutation s .commit [] (quietly Handle.commitTransaction)
  | .begin, [] => control Handle.beginTransaction
  | .abort, [] => control Handle.abortTransaction
  | _, _ => Program.fail (.mismatch .wrongArguments)

def call (s : Switches) (t : Tool) (given : List (String × Value)) : Program Response := do
  run s t (← Program.ofExcept (t.bindArguments given))

end Tools

end ImageBrowser
