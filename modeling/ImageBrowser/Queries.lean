import ImageBrowser.Browser

/-!
The queries and changes by name, with their arguments in order and their results as values. An
environment that is left out is the first one, and a search that does not say so ignores case.
-/

namespace ImageBrowser

def doneNull (p : Program Unit) : Program Value := do
  p
  return .null

def records {α : Type} (record : α → Record) (p : Program (List α)) : Program Value := do
  return .list ((← p).map fun e => (record e).toValue)

def RemoteObject.toValue (o : RemoteObject) : Value := .object [("remote", o.description)]

def Handle.toValue (h : Handle) : Value := .object [("handle", h.sessionId)]

open Smalltalk (SnippetKind)

namespace Handle

def query (h : Handle) : SnippetKind → List Value → Program Value
  | .dictionaryNames, [] => Value.texts <$> h.dictionaryNames
  | .classNames, [dictionary] => Value.texts <$> h.classNames dictionary
  | .dictionaryEntries, [index] => records DictionaryEntry.record (h.dictionaryEntries index)
  | .methodCategories, [cls, isMeta] => Value.texts <$> h.methodCategories cls isMeta
  | .methodSelectors, [cls, isMeta, category] =>
    Value.texts <$> h.methodSelectors cls isMeta category
  | .classEnvironments, [index, cls, limit] =>
    records EnvironmentCategory.record (h.classEnvironments index cls limit)
  | .methodSource, [cls, isMeta, selector] =>
    Value.text <$> h.methodSource cls isMeta selector (.whole 0)
  | .methodSource, [cls, isMeta, selector, environment] =>
    Value.text <$> h.methodSource cls isMeta selector environment
  | .classDefinition, [cls] => Value.text <$> h.classDefinition cls
  | .classComment, [cls] => Value.text <$> h.classComment cls
  | .allClassNames, [] => records ClassNameEntry.record h.allClassNames
  | .searchMethodSource, [term] =>
    SearchResults.toValue <$> h.searchMethodSource term (.flag true)
  | .searchMethodSource, [term, ignoreCase] =>
    SearchResults.toValue <$> h.searchMethodSource term ignoreCase
  | .sendersOf, [selector] => SearchResults.toValue <$> h.sendersOf selector (.whole 0)
  | .sendersOf, [selector, environment] =>
    SearchResults.toValue <$> h.sendersOf selector environment
  | .implementorsOf, [selector] => SearchResults.toValue <$> h.implementorsOf selector (.whole 0)
  | .implementorsOf, [selector, environment] =>
    SearchResults.toValue <$> h.implementorsOf selector environment
  | .classHierarchy, [cls] => records HierarchyEntry.record (h.classHierarchy cls)
  | .compileClassDefinition, [source] => Value.text <$> h.compileClassDefinition source
  | .setClassComment, [cls, comment] => doneNull (h.setClassComment cls comment)
  | .deleteMethod, [cls, isMeta, selector] => doneNull (h.deleteMethod cls isMeta selector)
  | .recategorizeMethod, [cls, isMeta, selector, category] =>
    doneNull (h.recategorizeMethod cls isMeta selector category)
  | .renameCategory, [cls, isMeta, old, new] => doneNull (h.renameCategory cls isMeta old new)
  | .deleteClass, [dictionary, cls] => doneNull (h.deleteClass dictionary cls)
  | .moveClass, [source, destination, cls] => doneNull (h.moveClass source destination cls)
  | .addDictionary, [name] => doneNull (h.addDictionary name)
  | .moveDictionaryUp, [name] => doneNull (h.moveDictionaryUp name)
  | .moveDictionaryDown, [name] => doneNull (h.moveDictionaryDown name)
  | _, _ => Program.fail (.mismatch .wrongArguments)

end Handle

inductive Operation
  | query (kind : SnippetKind)
  | begin
  | commit
  | abort
  | compile
  | compileSteps
  | runQuery
  | receiverLabel
  | transact
  | remoteStep
  | clearStack
  deriving DecidableEq, Repr

namespace Operation

def all : List Operation :=
  SnippetKind.all.map query ++
    [begin, commit, abort, compile, compileSteps, runQuery, receiverLabel, transact, remoteStep,
      clearStack]

def name : Operation → String
  | query kind => kind.name
  | begin => "begin_transaction"
  | commit => "commit_transaction"
  | abort => "abort_transaction"
  | compile => "compile_method"
  | compileSteps => "compile_method_steps"
  | runQuery => "run_query"
  | receiverLabel => "receiver_label"
  | transact => "transaction_control"
  | remoteStep => "remote_step"
  | clearStack => "clear_stack_after"

def ofName? (s : String) : Option Operation := all.find? fun o => o.name = s

def isForHandles : Operation → Bool
  | query .dictionaryNames | query .dictionaryEntries | query .classEnvironments => true
  | query .methodSource | query .sendersOf | query .implementorsOf | compile => true
  | _ => false

end Operation

namespace Handle

/-- No value is an action, nor does one have the context of a failure. -/
def carryOut (h : Handle) : Operation → List Value → Program Value
  | .query kind, args => h.query kind args
  | .begin, [] => doneNull h.beginTransaction
  | .commit, [] => doneNull h.commitTransaction
  | .abort, [] => doneNull h.abortTransaction
  | .compile, [cls, isMeta, category, source] =>
    RemoteObject.toValue <$> h.compileMethod cls isMeta category source (.whole 0)
  | .compile, [cls, isMeta, category, source, environment] =>
    RemoteObject.toValue <$> h.compileMethod cls isMeta category source environment
  | .compileSteps, [cls, isMeta, category, source, environment] =>
    RemoteObject.toValue <$> h.compileSteps cls isMeta category source environment
  | .runQuery, [label, code] => Value.text <$> h.fetch label.shown code
  | .receiverLabel, [cls, isMeta] => return receiverName cls isMeta
  | .transact, [name, action] =>
    doneNull (h.transact name.shown (Program.fail (.mismatch (.notCallable action.typeName))))
  | .remoteStep, [action, _] => Program.fail (.mismatch (.notCallable action.typeName))
  | .clearStack, [failure] => Program.fail (.noSuchOperation failure.typeName "context")
  | _, _ => Program.fail (.mismatch .wrongArguments)

def call (h : Handle) (name : String) (args : List Value) : Program Value :=
  match Operation.ofName? name with
  | some o => h.carryOut o args
  | none => Program.fail (.noSuchOperation "Browser" name)

/-- Fetches with result classes of the caller's own. No value can look them up, but an empty one
leaves that to the session. -/
def fetchWith (h : Handle) (label code resultClasses : Value) : Program String :=
  if resultClasses.isTruthy then do
    Program.log (.query h.sessionId label.shown code.shown)
    h.exclusively (Program.fail (.noSuchOperation resultClasses.typeName "result_class_for"))
  else h.fetch label.shown code

def callDirectly (h : Handle) (name : String) (args : List Value) : Program Value :=
  match Operation.ofName? name, name, args with
  | none, "execute_fetch_string", [label, code] => Value.text <$> h.fetch label.shown code
  | none, "execute_fetch_string", [label, code, classes] =>
    Value.text <$> h.fetchWith label code classes
  | none, "close_session", [] => doneNull h.connection.logOut
  | none, "execute_fetch_string", _ | none, "close_session", _ =>
    Program.fail (.mismatch .wrongArguments)
  | some o, _, args =>
    if o.isForHandles then h.carryOut o args else Program.fail (.noSuchOperation "queries" name)
  | _, _, _ => Program.fail (.noSuchOperation "queries" name)

end Handle

end ImageBrowser
