import ImageBrowser.Fault
import ImageBrowser.Smalltalk.Snippet

/-!
Snippets from the values that a client sends. Names and texts have to be text and indices numbers,
while any value can tell whether the class side is meant. Of two wrong values, one that is no text
is reported before one that is no number.
-/

namespace ImageBrowser.Smalltalk

inductive SnippetKind
  | dictionaryNames
  | classNames
  | dictionaryEntries
  | methodCategories
  | methodSelectors
  | classEnvironments
  | methodSource
  | classDefinition
  | classComment
  | allClassNames
  | searchMethodSource
  | sendersOf
  | implementorsOf
  | classHierarchy
  | compileClassDefinition
  | setClassComment
  | deleteMethod
  | recategorizeMethod
  | renameCategory
  | deleteClass
  | moveClass
  | addDictionary
  | moveDictionaryUp
  | moveDictionaryDown
  deriving DecidableEq, Repr

namespace SnippetKind

def all : List SnippetKind := [
  dictionaryNames, classNames, dictionaryEntries, methodCategories, methodSelectors,
  classEnvironments, methodSource, classDefinition, classComment, allClassNames,
  searchMethodSource, sendersOf, implementorsOf, classHierarchy, compileClassDefinition,
  setClassComment, deleteMethod, recategorizeMethod, renameCategory, deleteClass, moveClass,
  addDictionary, moveDictionaryUp, moveDictionaryDown]

def name : SnippetKind → String
  | dictionaryNames => "dictionary_names"
  | classNames => "class_names"
  | dictionaryEntries => "dictionary_entries"
  | methodCategories => "method_categories"
  | methodSelectors => "method_selectors"
  | classEnvironments => "class_environments"
  | methodSource => "method_source"
  | classDefinition => "class_definition"
  | classComment => "class_comment"
  | allClassNames => "all_class_names"
  | searchMethodSource => "search_method_source"
  | sendersOf => "senders_of"
  | implementorsOf => "implementors_of"
  | classHierarchy => "class_hierarchy"
  | compileClassDefinition => "compile_class_definition"
  | setClassComment => "set_class_comment"
  | deleteMethod => "delete_method"
  | recategorizeMethod => "recategorize_method"
  | renameCategory => "rename_category"
  | deleteClass => "delete_class"
  | moveClass => "move_class"
  | addDictionary => "add_dictionary"
  | moveDictionaryUp => "move_dictionary_up"
  | moveDictionaryDown => "move_dictionary_down"

def ofName? (s : String) : Option SnippetKind := all.find? fun k => k.name = s

def namedEnvironment (environment : Value) : Except Fault (Option Int) :=
  if environment.same (.whole 0) then .ok none else environment.asNumber.map some

def snippet : SnippetKind → List Value → Except Fault Snippet
  | dictionaryNames, [] => .ok .dictionaryNames
  | classNames, [dictionary] => do return .classNames (← dictionary.asText)
  | dictionaryEntries, [index] => do return .dictionaryEntries (← index.asNumber)
  | methodCategories, [cls, isMeta] => do
    return .methodCategories (← cls.asText) isMeta.isTruthy
  | methodSelectors, [cls, isMeta, category] => do
    return .methodSelectors (← cls.asText) isMeta.isTruthy (← category.asText)
  | classEnvironments, [index, cls, limit] => do
    let name ← cls.asText
    let limit ← limit.asNumber
    return .classEnvironments (← index.asNumber) name limit
  | methodSource, [cls, isMeta, selector] => do
    return .methodSource (← cls.asText) isMeta.isTruthy (← selector.asText) none
  | methodSource, [cls, isMeta, selector, environment] => do
    let name ← cls.asText
    let selector ← selector.asText
    return .methodSource name isMeta.isTruthy selector (← namedEnvironment environment)
  | classDefinition, [cls] => do return .classDefinition (← cls.asText)
  | classComment, [cls] => do return .classComment (← cls.asText)
  | allClassNames, [] => .ok .allClassNames
  | searchMethodSource, [term, ignoreCase] => do
    return .searchMethodSource (← term.asText) ignoreCase.isTruthy
  | sendersOf, [selector] => do return .sendersOf (← selector.asText) 0
  | sendersOf, [selector, environment] => do
    let selector ← selector.asText
    return .sendersOf selector (← environment.asNumber)
  | implementorsOf, [selector] => do return .implementorsOf (← selector.asText) 0
  | implementorsOf, [selector, environment] => do
    let selector ← selector.asText
    return .implementorsOf selector (← environment.asNumber)
  | classHierarchy, [cls] => do return .classHierarchy (← cls.asText)
  | compileClassDefinition, [source] => .ok (.compileClassDefinition source.shown)
  | setClassComment, [cls, comment] => do
    return .setClassComment (← cls.asText) (← comment.asText)
  | deleteMethod, [cls, isMeta, selector] => do
    return .deleteMethod (← cls.asText) isMeta.isTruthy (← selector.asText)
  | recategorizeMethod, [cls, isMeta, selector, category] => do
    return .recategorizeMethod (← cls.asText) isMeta.isTruthy (← selector.asText)
      (← category.asText)
  | renameCategory, [cls, isMeta, old, new] => do
    return .renameCategory (← cls.asText) isMeta.isTruthy (← old.asText) (← new.asText)
  | deleteClass, [dictionary, cls] => do
    return .deleteClass (← dictionary.asText) (← cls.asText)
  | moveClass, [source, destination, cls] => do
    return .moveClass (← source.asText) (← destination.asText) (← cls.asText)
  | addDictionary, [dictionary] => do return .addDictionary (← dictionary.asText)
  | moveDictionaryUp, [dictionary] => do return .moveDictionaryUp (← dictionary.asText)
  | moveDictionaryDown, [dictionary] => do return .moveDictionaryDown (← dictionary.asText)
  | _, _ => .error (.mismatch .wrongArguments)

end SnippetKind

end ImageBrowser.Smalltalk
