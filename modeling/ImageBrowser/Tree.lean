import ImageBrowser.Browser
import ImageBrowser.Sessions
import ImageBrowser.TreeItem

/-!
The class library of the selected session as a tree that is expanded on demand. The children of a
node are computed from its path; the two costly reports they need are cached until the tree is
refreshed. When the stone fails, the failure is reported and the node shows no children.
-/

namespace ImageBrowser.Tree

inductive Notifier
  | log
  | gather
  | outside
  deriving DecidableEq, Repr

def notify (n : Notifier) (message : String) : Program Unit :=
  match n with
  | .log => Program.log (.notified message)
  | .gather => Program.step (.addNotice message)
  | .outside => Program.report message

def limit : Program Nat := do
  let (n, warning) ← Program.step .limit
  match warning with
  | some e => Program.log e
  | none => Program.done ()
  return n

def fetchAsOwner (k : CacheKey) (ticket : Nat) (fetch : Program CacheEntry) :
    Program CacheEntry := do
  let outcome ← fetch.attempt
  Program.step (.settle k ticket outcome)
  Program.step (.publish ticket outcome)
  Program.ofExcept outcome

def entry (k : CacheKey) (fetch : Program CacheEntry) : Program CacheEntry := do
  match ← Program.step (.request k) with
  | .found e => return e
  | .joined ticket => Program.wait ticket
  | .owned ticket => fetchAsOwner k ticket fetch

def classCategoriesEntry (session index : Value) (fetch : Program (List Binding)) :
    Program ClassCategories := do
  let k ← Program.ofExcept (CacheKey.ofDictionary session index)
  let e ← entry k do
    return .classCategories (← Program.ofExcept (ClassCategories.ofBindings (← fetch)))
  return e.asClassCategories

def cachedClassCategories (session index : Value) : Program (Option ClassCategories) := do
  let k ← Program.ofExcept (CacheKey.ofDictionary session index)
  return (← Program.step (.cached k)).map CacheEntry.asClassCategories

def environmentsEntry (session index className limit : Value)
    (fetch : Program (List CategoryListing)) : Program Environments := do
  let k ← Program.ofExcept (CacheKey.ofClass session index className limit)
  let e ← entry k do
    return .environments (← Program.ofExcept (Environments.ofListings (← fetch)))
  return e.asEnvironments

def dictionaries (h : Handle) : Program (List Node) := do
  let names ← h.dictionaryNames
  return names.mapIdx fun i name => .dictionary ⟨h.sessionId, .whole (i + 1), .text name⟩

def classCategories (h : Handle) (path : DictionaryPath) : Program (List Node) := do
  let e ← classCategoriesEntry path.sessionId path.index do
    return (← h.dictionaryEntries path.index).map DictionaryEntry.binding
  let categories ← Program.ofExcept e.categoryNames
  let others := if e.globals.isEmpty then [] else [Value.text otherGlobalsRow]
  return (.text allRow :: categories ++ others).map (Node.classCategory path)

/-- Rows are told apart by their names alone. -/
def rowChildren (e : ClassCategories) (path : DictionaryPath) (row : Value) :
    Except Fault (List Node) := do
  if row = .text otherGlobalsRow then return e.globals.map (Node.global path)
  let names ← if row = .text allRow then e.allClassNames else e.classNamesIn row
  return names.map fun name => .cls ⟨path, name⟩

/-- Looks only at what is cached: a row is not listed before its dictionary is expanded. -/
def classes (path : DictionaryPath) (row : Value) : Program (List Node) := do
  match ← cachedClassCategories path.sessionId path.index with
  | none => return []
  | some e => Program.ofExcept (rowChildren e path row)

def sides (path : ClassPath) : Program (List Node) := do
  let limit ← limit
  let sidesOf (isMeta : Bool) : List Node :=
    (List.range (limit + 1)).map fun e => .side ⟨path, .flag isMeta, .whole (Int.ofNat e)⟩
  return [.definition path, .comment path] ++ sidesOf false ++ sidesOf true

/-- An entry holds the environments up to the limit in force, which is part of its key. -/
def environments (h : Handle) (path : ClassPath) : Program Environments := do
  let limit := Value.whole (← limit)
  let dictionary := path.dictionary
  environmentsEntry dictionary.sessionId dictionary.index path.className limit do
    let rows ← h.classEnvironments dictionary.index path.className limit
    return rows.map EnvironmentCategory.listing

def categories (h : Handle) (path : SidePath) : Program (List Node) := do
  let e ← environments h path.cls
  let names ← Program.ofExcept (e.categoryNames path.isMeta path.environment)
  return (.text allRow :: names).map (Node.category path)

def methodsIn (e : Environments) (path : SidePath) (row : Value) :
    Except Fault (List (Value × Value)) :=
  if row = .text allRow then e.categorizedSelectors path.isMeta path.environment
  else e.selectorsWith path.isMeta path.environment row

def methods (h : Handle) (path : SidePath) (row : Value) : Program (List Node) := do
  let e ← environments h path.cls
  let found ← Program.ofExcept (methodsIn e path row)
  return found.map fun m => .method path m.2 m.1

def childrenOf (h : Handle) : Option Node → Program (List Node)
  | none => dictionaries h
  | some (.dictionary path) => classCategories h path
  | some (.classCategory path row) => classes path row
  | some (.cls path) => sides path
  | some (.side path) => categories h path
  | some (.category path row) => methods h path row
  | some _ => Program.done []

def children (n : Notifier) (node : Option Node) : Program (List Node) := do
  match ← Sessions.selected with
  | none => return []
  | some h =>
    (childrenOf h node).handling Fault.isExpected fun f => do
      notify n ("Browser query failed: " ++ f.message)
      return []

def item (node : Node) : Program TreeItem := do
  let limit ← limit
  Program.ofExcept (TreeItem.ofNode node (.whole limit))

def content (node : Node) : Program String := do
  match ← Sessions.selected with
  | none => Program.fail (.refused .nothingSelected)
  | some h =>
    match node with
    | .definition path => h.classDefinition path.className
    | .comment path => h.classComment path.className
    | .method path _ selector =>
      h.methodSource path.cls.className path.isMeta selector path.environment
    | node => Program.fail (.refused (.noContent node.kind.tag))

end ImageBrowser.Tree
