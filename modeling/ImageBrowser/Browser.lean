import ImageBrowser.Calls
import ImageBrowser.Records.Rows
import ImageBrowser.Smalltalk.SnippetKind

/-!
The queries and changes that the browser makes in a session. Each is one logical call: it claims
the session, and a failure of the stone becomes a refusal with the stone's own message, or with a
message of the failed step when the stone gives none. A compile fails as well where a number that
it writes has too many digits; the labels and logs of the others take numbers of any length.
-/

namespace ImageBrowser

open Smalltalk (SnippetKind)

namespace Handle

def maxResultSize : Nat := 256 * 1024

def resultClassName : String := "Utf8"

def failedCall {α : Type} (h : Handle) (fallback : String) (f : Fault) : Program α := do
  let message := if f.message = "" then fallback else f.message
  Program.log (.error h.sessionId message)
  Program.fail (.refused (.queryFailed message f.stoneNumber))

def remoteStep {α : Type} (h : Handle) (fallback : String) (body : Program α) : Program α :=
  body.handling Fault.isFromStone (h.failedCall fallback)

/-- The class that results are answered in is resolved once for a handle; that a stone does not
know it is not remembered. -/
def resultClass (h : Handle) : Program (Option RemoteObject) := do
  match ← Program.step (.knownResultClass h.number) with
  | some c => return some c
  | none =>
    let found ← h.remoteStep ("Cannot resolve " ++ resultClassName ++ " class")
      (h.resolve (.text resultClassName))
    match found with
    | some c => Program.step (.rememberResultClass h.number c)
    | none => Program.done ()
    return found

def failureFields (f : Fault) : List (String × String) :=
  [("error", Text.quoted f.message), ("number", f.stoneNumber.quoted)]

def fetch (h : Handle) (label : String) (code : Value) : Program String := do
  Program.log (.query h.sessionId label code.shown)
  let data ← h.exclusively do
    let resultClass ← h.resultClass
    Program.log (.called h.sessionId "execute_fetch_string"
      [("source", code.quoted), ("result_class", printedObject resultClass),
        ("max_result_size", Text.ofInt maxResultSize)])
    (h.fetchText code resultClass (.whole maxResultSize)).handling Fault.isFromStone fun f => do
      Program.log (.returned h.sessionId "execute_fetch_string" (failureFields f))
      h.failedCall ("GCI error " ++ f.stoneNumber.shown) f
  Program.log (.returned h.sessionId "execute_fetch_string"
    [("bytes_returned", Text.ofInt data.length), ("data", Text.quoted data)])
  Program.log (.result h.sessionId data)
  return data

def run (h : Handle) (label : String) (kind : SnippetKind) (values : List Value) :
    Program String := do
  let snippet ← Program.ofExcept (kind.snippet values)
  h.fetch label (.text snippet.source)

def change (h : Handle) (label : String) (kind : SnippetKind) (values : List Value) :
    Program Unit := do
  let _ ← h.run label kind values
  return ()

def receiverName (className isMeta : Value) : Value :=
  if isMeta.isTruthy then .text (className.shown ++ " class") else className

def receiverLabel (className isMeta : Value) : String := (receiverName className isMeta).shown

def inQuotes (v : Value) : String := "'" ++ v.shown ++ "'"

def dictionaryNames (h : Handle) : Program (List String) := do
  return Text.lines (← h.run "dictionary_names" .dictionaryNames [])

def classNames (h : Handle) (dictionary : Value) : Program (List String) := do
  return Text.sorted (Text.lines
    (← h.run ("class_names(" ++ dictionary.shown ++ ")") .classNames [dictionary]))

def dictionaryEntries (h : Handle) (index : Value) : Program (List DictionaryEntry) := do
  return dictionaryEntriesIn
    (← h.run ("dictionary_entries(dictionary_index: " ++ index.shown ++ ")")
      .dictionaryEntries [index])

def methodCategories (h : Handle) (className isMeta : Value) : Program (List String) := do
  return Text.lines
    (← h.run ("method_categories(" ++ receiverLabel className isMeta ++ ")")
      .methodCategories [className, isMeta])

def methodSelectors (h : Handle) (className isMeta category : Value) :
    Program (List String) := do
  return Text.lines
    (← h.run ("method_selectors(" ++ receiverLabel className isMeta ++ ", " ++
        inQuotes category ++ ")")
      .methodSelectors [className, isMeta, category])

def classEnvironments (h : Handle) (index className limit : Value) :
    Program (List EnvironmentCategory) := do
  return classEnvironmentsIn
    (← h.run ("class_environments(" ++ className.shown ++ ", " ++ limit.shown ++ ")")
      .classEnvironments [index, className, limit])

def methodSource (h : Handle) (className isMeta selector environment : Value) :
    Program String :=
  h.run ("method_source(" ++ receiverLabel className isMeta ++ ">>#" ++ selector.shown ++
      (if environment.isTruthy then " env:" ++ environment.shown else "") ++ ")")
    .methodSource [className, isMeta, selector, environment]

def classDefinition (h : Handle) (className : Value) : Program String :=
  h.run ("class_definition(" ++ className.shown ++ ")") .classDefinition [className]

def classComment (h : Handle) (className : Value) : Program String :=
  h.run ("class_comment(" ++ className.shown ++ ")") .classComment [className]

def allClassNames (h : Handle) : Program (List ClassNameEntry) := do
  return allClassNamesIn (← h.run "all_class_names" .allClassNames [])

def searchMethodSource (h : Handle) (term ignoreCase : Value) : Program SearchResults := do
  return foundMethodsIn
    (← h.run ("search_method_source(" ++ inQuotes term ++ ")")
      .searchMethodSource [term, ignoreCase])

def inEnvironment (selector environment : Value) : String :=
  "(#" ++ selector.shown ++ ", env:" ++ environment.shown ++ ")"

def sendersOf (h : Handle) (selector environment : Value) : Program SearchResults := do
  return foundMethodsIn
    (← h.run ("senders_of" ++ inEnvironment selector environment)
      .sendersOf [selector, environment])

def implementorsOf (h : Handle) (selector environment : Value) : Program SearchResults := do
  return foundMethodsIn
    (← h.run ("implementors_of" ++ inEnvironment selector environment)
      .implementorsOf [selector, environment])

def classHierarchy (h : Handle) (className : Value) : Program (List HierarchyEntry) := do
  return classHierarchyIn
    (← h.run ("class_hierarchy(" ++ className.shown ++ ")") .classHierarchy [className])

def compileClassDefinition (h : Handle) (source : Value) : Program String :=
  h.run "compile_class_definition" .compileClassDefinition [source]

def setClassComment (h : Handle) (className comment : Value) : Program Unit :=
  h.change ("set_class_comment(" ++ className.shown ++ ")")
    .setClassComment [className, comment]

def deleteMethod (h : Handle) (className isMeta selector : Value) : Program Unit :=
  h.change ("delete_method(" ++ receiverLabel className isMeta ++ ">>#" ++ selector.shown ++
      ")")
    .deleteMethod [className, isMeta, selector]

def recategorizeMethod (h : Handle) (className isMeta selector category : Value) :
    Program Unit :=
  h.change ("recategorize_method(" ++ receiverLabel className isMeta ++ ">>#" ++
      selector.shown ++ " -> " ++ inQuotes category ++ ")")
    .recategorizeMethod [className, isMeta, selector, category]

def renameCategory (h : Handle) (className isMeta old new : Value) : Program Unit :=
  h.change ("rename_category(" ++ receiverLabel className isMeta ++ ", " ++ inQuotes old ++
      " -> " ++ inQuotes new ++ ")")
    .renameCategory [className, isMeta, old, new]

def deleteClass (h : Handle) (dictionary className : Value) : Program Unit :=
  h.change ("delete_class(" ++ dictionary.shown ++ ", " ++ className.shown ++ ")")
    .deleteClass [dictionary, className]

def moveClass (h : Handle) (source destination className : Value) : Program Unit :=
  h.change ("move_class(" ++ className.shown ++ ": " ++ source.shown ++ " -> " ++
      destination.shown ++ ")")
    .moveClass [source, destination, className]

def addDictionary (h : Handle) (name : Value) : Program Unit :=
  h.change ("add_dictionary(" ++ name.shown ++ ")") .addDictionary [name]

def moveDictionaryUp (h : Handle) (name : Value) : Program Unit :=
  h.change ("move_dictionary_up(" ++ name.shown ++ ")") .moveDictionaryUp [name]

def moveDictionaryDown (h : Handle) (name : Value) : Program Unit :=
  h.change ("move_dictionary_down(" ++ name.shown ++ ")") .moveDictionaryDown [name]

def transact (h : Handle) (name : String) (action : Program Unit) : Program Unit := do
  Program.log (.query h.sessionId (name ++ "_transaction") ("System " ++ name ++ "Transaction"))
  h.exclusively do
    Program.log (.called h.sessionId name [])
    h.remoteStep ("Cannot " ++ name ++ " the transaction") action
  Program.log (.returned h.sessionId name [("ok", (Value.flag true).quoted)])

def beginTransaction (h : Handle) : Program Unit := h.transact "begin" h.begin

def commitTransaction (h : Handle) : Program Unit := h.transact "commit" h.commit

def abortTransaction (h : Handle) : Program Unit := h.transact "abort" h.abort

/-- Tries to clear what a failed compile left on the stone; a stone that fails at that is only
logged. -/
def clearAfter (h : Handle) (context : Option RemoteObject) : Program Unit :=
  if context.isNone then Program.done ()
  else (h.clearStack context).handling Fault.isFromStone fun f =>
    Program.log (.error h.sessionId
      ("Could not clear stack after failed compile: " ++ f.message))

def failedCompile (h : Handle) : Fault → Program RemoteObject
  | .stone e => do
    let _ ← Program.ofExcept e.number.asWritable
    Program.log (.returned h.sessionId "compile_method" (failureFields (.stone e)))
    h.clearAfter e.context
    h.failedCall ("Compile error " ++ e.number.shown) (.stone e)
  | f => h.failedCall "Compile error 0" f

def compileSteps (h : Handle) (className isMeta category source environment : Value) :
    Program RemoteObject := do
  let className ← Program.ofExcept className.asWritable
  let cls ← h.remoteStep ("Cannot resolve " ++ className.shown) (h.resolve className)
  let behavior ← if isMeta.isTruthy then
      some <$> h.remoteStep ("Cannot get metaclass for " ++ className.shown)
        (h.perform cls (.text "class") [])
    else pure cls
  let sourceText ← h.remoteStep "Cannot create source string" (h.newString source)
  let categoryName ← h.remoteStep "Cannot create category symbol" (h.newSymbol category)
  let environment ← Program.ofExcept environment.asWritable
  Program.log (.called h.sessionId "compile_method"
    [("source", sourceText.printed), ("behavior", printedObject behavior),
      ("category", categoryName.printed), ("symbol_list", Value.null.quoted),
      ("override_selector", Value.null.quoted), ("compile_flags", Text.ofInt 0),
      ("environment_id", environment.quoted)])
  let compiled ← (h.compile (some sourceText) behavior (some categoryName)
    { environment := environment }).handling Fault.isFromStone h.failedCompile
  Program.log (.result h.sessionId ("Compiled -> " ++ compiled.printed))
  return compiled

def compileLabel (className isMeta category : Value) : Except Fault String := do
  let className ← className.asWritable
  let category ← category.asWritable
  return "compile_method(" ++ receiverLabel className isMeta ++ ", " ++ inQuotes category ++ ")"

def compileMethod (h : Handle) (className isMeta category source environment : Value) :
    Program RemoteObject := do
  let label ← Program.ofExcept (compileLabel className isMeta category)
  Program.log (.query h.sessionId label source.shown)
  h.exclusively (h.compileSteps className isMeta category source environment)

end Handle

end ImageBrowser
