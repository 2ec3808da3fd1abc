import ImageBrowser.Smalltalk.Template

/-!
Everything the browser ever asks a stone to execute by itself. Each snippet answers one string;
those of `Snippet.isChange` alter the image, the others only read it.
-/

namespace ImageBrowser.Smalltalk

def methodLimit : Nat := 500

def truncationMarker : String := "#truncated"

def symbolList : String := "System myUserProfile symbolList"

def booleanText (b : Bool) : String := if b then "true" else "false"

variable {τ : Type}

def namedObject (name : τ) : List (Piece τ) :=
  [.code "(", .code symbolList, .code " objectNamed: ", .symbol name, .code ")"]

def receiver (className : τ) (isMeta : Bool) : List (Piece τ) :=
  if isMeta then namedObject className ++ [.code " class"] else namedObject className

def dictionaryNames : List (Piece τ) := ofLines [
  [.code "| ws |"],
  [.code "ws := WriteStream on: String new."],
  [.code symbolList, .code " names do: [:each |"],
  [.code "  ws nextPutAll: each; lf]."],
  [.code "ws contents"]]

def classNames (dictionary : τ) : List (Piece τ) := ofLines [
  [.code "| ws dict |"],
  [.code "dict := "] ++ namedObject dictionary ++ [.code "."],
  [.code "ws := WriteStream on: String new."],
  [.code "dict keysAndValuesDo: [:k :v |"],
  [.code "  v isBehavior ifTrue: [ws nextPutAll: k; lf]]."],
  [.code "ws contents"]]

def dictionaryEntries (index : Int) : List (Piece τ) := ofLines [
  [.code "| ws dict |"],
  [.code "dict := ", .code symbolList, .code " at: ", .number index, .code "."],
  [.code "ws := WriteStream on: Unicode7 new."],
  [.code "dict keysAndValuesDo: [:k :v |"],
  [.code "  v isBehavior"],
  [.code "    ifTrue: [ws nextPutAll: ", .string "1",
    .code "; tab; nextPutAll: (v category ifNil: [", .string "",
    .code "]); tab; nextPutAll: k; lf]"],
  [.code "    ifFalse: [ws nextPutAll: ", .string "0",
    .code "; tab; tab; nextPutAll: k asString; lf]]."],
  [.code "ws contents"]]

def methodCategories (className : τ) (isMeta : Bool) : List (Piece τ) := ofLines [
  [.code "| ws |"],
  [.code "ws := WriteStream on: String new."],
  receiver className isMeta ++ [.code " categoryNames asSortedCollection do: [:each |"],
  [.code "  ws nextPutAll: each; lf]."],
  [.code "ws contents"]]

def methodSelectors (className : τ) (isMeta : Bool) (category : τ) : List (Piece τ) :=
  ofLines [
    [.code "| ws |"],
    [.code "ws := WriteStream on: String new."],
    [.code "("] ++ receiver className isMeta ++
      [.code " sortedSelectorsIn: ", .text category, .code ")"],
    [.code "  do: [:each |"],
    [.code "    ws nextPutAll: each; lf]."],
    [.code "ws contents"]]

def classEnvironments (index : Int) (className : τ) (limit : Int) : List (Piece τ) := ofLines [
  [.code "| class envs stream |"],
  [.code "envs := ", .number limit, .code "."],
  [.code "class := (", .code symbolList, .code " at: ", .number index, .code ") at: ",
    .symbol className, .code "."],
  [.code "stream := WriteStream on: Unicode7 new."],
  [.code "\x7b class class. class. \x7d do: [:eachClass |"],
  [.code "  0 to: envs do: [:env |"],
  [.code "    (eachClass _unifiedCategorys: env) keysAndValuesDo: [:categoryName :selectors |"],
  [.code "      stream"],
  [.code "        nextPutAll: eachClass name; tab;"],
  [.code "        nextPutAll: env printString; tab;"],
  [.code "        nextPutAll: categoryName; tab;"],
  [.code "        yourself."],
  [.code "      selectors do: [:each |"],
  [.code "        stream nextPutAll: each; tab."],
  [.code "      ]."],
  [.code "      stream lf."],
  [.code "    ]."],
  [.code "  ]."],
  [.code "]."],
  [.code "stream contents"]]

/-- Without an environment the method is looked up in the first one. -/
def methodSource (className : τ) (isMeta : Bool) (selector : τ)
    (environment : Option Int) : List (Piece τ) :=
  [.code "("] ++ receiver className isMeta ++ [.code " compiledMethodAt: ", .symbol selector] ++
  (match environment with
    | none => []
    | some e => [.code " environmentId: ", .number e]) ++
  [.code ") sourceString"]

def classDefinition (className : τ) : List (Piece τ) :=
  namedObject className ++ [.code " definition"]

def classComment (className : τ) : List (Piece τ) :=
  namedObject className ++ [.code " comment"]

def compileClassDefinition (source : τ) : List (Piece τ) :=
  [.code "(", .spliced source, .code ") name"]

def answeringOk (change : List (Piece τ)) : List (Piece τ) := change ++ [.code ". ", .string "ok"]

def setClassComment (className comment : τ) : List (Piece τ) :=
  answeringOk (namedObject className ++ [.code " comment: ", .text comment])

def deleteMethod (className : τ) (isMeta : Bool) (selector : τ) : List (Piece τ) :=
  answeringOk (receiver className isMeta ++ [.code " removeSelector: ", .symbol selector])

def recategorizeMethod (className : τ) (isMeta : Bool) (selector category : τ) : List (Piece τ) :=
  answeringOk (receiver className isMeta ++
    [.code " moveMethod: ", .symbol selector, .code " toCategory: ", .text category])

def renameCategory (className : τ) (isMeta : Bool) (old new : τ) : List (Piece τ) :=
  answeringOk (receiver className isMeta ++
    [.code " renameCategory: ", .text old, .code " to: ", .text new])

def deleteClass (dictionary className : τ) : List (Piece τ) :=
  answeringOk (ofLines [
    namedObject dictionary,
    [.code "  removeKey: ", .symbol className, .code " ifAbsent: []"]])

def moveClass (source destination className : τ) : List (Piece τ) := ofLines [
  [.code "| cls srcDict destDict |"],
  [.code "srcDict := "] ++ namedObject source ++ [.code "."],
  [.code "destDict := "] ++ namedObject destination ++ [.code "."],
  [.code "cls := srcDict removeKey: ", .symbol className, .code "."],
  [.code "destDict at: ", .symbol className, .code " put: cls."],
  [.string "ok"]]

def addDictionary (name : τ) : List (Piece τ) := ofLines [
  [.code "| dict |"],
  [.code "dict := SymbolDictionary new."],
  [.code "dict name: ", .symbol name, .code "."],
  [.code symbolList, .code " add: dict."],
  [.code "dict name"]]

def moveDictionary (name : τ) (hasNeighbour neighbour : String) : List (Piece τ) := ofLines [
  [.code "| sl idx temp |"],
  [.code "sl := ", .code symbolList, .code "."],
  [.code "idx := sl names indexOf: ", .symbol name, .code "."],
  [.code hasNeighbour, .code " ifTrue: ["],
  [.code "  temp := sl at: idx."],
  [.code "  sl at: idx put: (sl at: ", .code neighbour, .code ")."],
  [.code "  sl at: ", .code neighbour, .code " put: temp]."],
  [.string "ok"]]

def moveDictionaryUp (name : τ) : List (Piece τ) := moveDictionary name "idx > 1" "idx - 1"

def moveDictionaryDown (name : τ) : List (Piece τ) :=
  moveDictionary name "idx < sl size" "idx + 1"

def allClassNames : List (Piece τ) := ofLines [
  [.code "| ws sl seen |"],
  [.code "ws := WriteStream on: Unicode7 new."],
  [.code "sl := ", .code symbolList, .code "."],
  [.code "seen := IdentitySet new."],
  [.code "1 to: sl size do: [:idx |"],
  [.code "  | dict |"],
  [.code "  dict := sl at: idx."],
  [.code "  dict keysAndValuesDo: [:k :v |"],
  [.code "    (v isBehavior and: [(seen includes: v) not]) ifTrue: ["],
  [.code "      seen add: v."],
  [.code "      ws nextPutAll: idx printString; tab; nextPutAll: dict name; ",
    .code "tab; nextPutAll: k; lf]]]."],
  [.code "ws contents"]]

def dictionaryLookup : List (Piece τ) := ofLines [
  [.code "sl := ", .code symbolList, .code "."],
  [.code "classDict := IdentityDictionary new."],
  [.code "sl do: [:dict |"],
  [.code "  dict keysAndValuesDo: [:k :v |"],
  [.code "    (v isBehavior and: [(classDict includesKey: v) not])"],
  [.code "      ifTrue: [classDict at: v put: dict name]]]."],
  []]

def methodRows (environment : Int) : List (Piece τ) := dictionaryLookup ++ ofLines [
  [.code "stream := WriteStream on: Unicode7 new."],
  [.code "limit := methods size min: ", .number methodLimit, .code "."],
  [.code "1 to: limit do: [:i |"],
  [.code "  | each cls baseClass |"],
  [.code "  each := methods at: i."],
  [.code "  cls := each inClass."],
  [.code "  baseClass := cls theNonMetaClass."],
  [.code "  stream"],
  [.code "    nextPutAll: (classDict at: baseClass ifAbsent: [", .string "", .code "]); tab;"],
  [.code "    nextPutAll: baseClass name; tab;"],
  [.code "    nextPutAll: (cls isMeta ifTrue: [", .string "1", .code "] ifFalse: [", .string "0",
    .code "]); tab;"],
  [.code "    nextPutAll: each selector; tab;"],
  [.code "    nextPutAll: ((cls categoryOfSelector: each selector environmentId: ",
    .number environment, .code ") ifNil: [", .string "", .code "]); lf."],
  [.code "]."],
  [.code "methods size > limit ifTrue: ["],
  [.code "  stream nextPutAll: ", .string truncationMarker,
    .code "; tab; nextPutAll: methods size printString; lf]."],
  [.code "stream contents"]]

def searchMethodSource (term : τ) (ignoreCase : Bool) : List (Piece τ) :=
  ofLines [
    [.code "| results methods stream limit classDict sl |"],
    [.code "results := ClassOrganizer new substringSearch: ", .text term,
      .code " ignoreCase: ", .code (booleanText ignoreCase), .code "."],
    [.code "methods := results at: 1."],
    []] ++
  methodRows 0

def organized (environment : Int) (answer : List (Piece τ)) : List (Piece τ) :=
  ofLines [
    [.code "| methods stream limit classDict sl |"],
    [.code "methods := ((ClassOrganizer new environmentId: ", .number environment,
      .code "; yourself)"],
    [.code "  "] ++ answer ++ [.code "."],
    []] ++
  methodRows environment

def sendersOf (selector : τ) (environment : Int) : List (Piece τ) :=
  organized environment [.code "sendersOf: ", .symbol selector, .code ") at: 1"]

def implementorsOf (selector : τ) (environment : Int) : List (Piece τ) :=
  organized environment [.code "implementorsOf: ", .symbol selector, .code ") asArray"]

def hierarchyRow (margin cls kinship : String) : List (Piece τ) := ofLines [
  [.code margin, .code "stream nextPutAll: (classDict at: ", .code cls, .code " ifAbsent: [",
    .string "", .code "]); tab;"],
  [.code margin, .code "  nextPutAll: ", .code cls, .code " name; tab; nextPutAll: ",
    .string kinship, .code "; lf"]]

def classHierarchy (className : τ) : List (Piece τ) :=
  ofLines [
    [.code "| organizer class supers subs stream classDict sl |"],
    [.code "organizer := ClassOrganizer new."],
    [.code "class := "] ++ namedObject className ++ [.code "."],
    [.code "supers := organizer allSuperclassesOf: class."],
    [.code "subs := organizer subclassesOf: class."],
    []] ++
  dictionaryLookup ++
  ofLines [
    [.code "stream := WriteStream on: Unicode7 new."],
    [.code "supers reverseDo: [:each |"],
    hierarchyRow "  " "each" "superclass" ++ [.code "]."],
    hierarchyRow "" "class" "self" ++ [.code "."],
    [.code "subs asSortedCollection do: [:each |"],
    hierarchyRow "  " "each" "subclass" ++ [.code "]."],
    [.code "stream contents"]]

inductive Snippet
  | dictionaryNames
  | classNames (dictionary : String)
  | dictionaryEntries (index : Int)
  | methodCategories (className : String) (isMeta : Bool)
  | methodSelectors (className : String) (isMeta : Bool) (category : String)
  | classEnvironments (index : Int) (className : String) (limit : Int)
  | methodSource (className : String) (isMeta : Bool) (selector : String)
      (environment : Option Int)
  | classDefinition (className : String)
  | classComment (className : String)
  | allClassNames
  | searchMethodSource (term : String) (ignoreCase : Bool)
  | sendersOf (selector : String) (environment : Int)
  | implementorsOf (selector : String) (environment : Int)
  | classHierarchy (className : String)
  | compileClassDefinition (source : String)
  | setClassComment (className comment : String)
  | deleteMethod (className : String) (isMeta : Bool) (selector : String)
  | recategorizeMethod (className : String) (isMeta : Bool) (selector category : String)
  | renameCategory (className : String) (isMeta : Bool) (old new : String)
  | deleteClass (dictionary className : String)
  | moveClass (source destination className : String)
  | addDictionary (name : String)
  | moveDictionaryUp (name : String)
  | moveDictionaryDown (name : String)
  deriving DecidableEq, Repr

namespace Snippet

def template : Snippet → List (Piece String)
  | dictionaryNames => Smalltalk.dictionaryNames
  | classNames d => Smalltalk.classNames d
  | dictionaryEntries i => Smalltalk.dictionaryEntries i
  | methodCategories c m => Smalltalk.methodCategories c m
  | methodSelectors c m g => Smalltalk.methodSelectors c m g
  | classEnvironments i c l => Smalltalk.classEnvironments i c l
  | methodSource c m s e => Smalltalk.methodSource c m s e
  | classDefinition c => Smalltalk.classDefinition c
  | classComment c => Smalltalk.classComment c
  | allClassNames => Smalltalk.allClassNames
  | searchMethodSource t i => Smalltalk.searchMethodSource t i
  | sendersOf s e => Smalltalk.sendersOf s e
  | implementorsOf s e => Smalltalk.implementorsOf s e
  | classHierarchy c => Smalltalk.classHierarchy c
  | compileClassDefinition s => Smalltalk.compileClassDefinition s
  | setClassComment c t => Smalltalk.setClassComment c t
  | deleteMethod c m s => Smalltalk.deleteMethod c m s
  | recategorizeMethod c m s g => Smalltalk.recategorizeMethod c m s g
  | renameCategory c m o n => Smalltalk.renameCategory c m o n
  | deleteClass d c => Smalltalk.deleteClass d c
  | moveClass s d c => Smalltalk.moveClass s d c
  | addDictionary n => Smalltalk.addDictionary n
  | moveDictionaryUp n => Smalltalk.moveDictionaryUp n
  | moveDictionaryDown n => Smalltalk.moveDictionaryDown n

def source (s : Snippet) : String := render s.template

def isChange : Snippet → Bool
  | compileClassDefinition _ | setClassComment _ _ | deleteMethod _ _ _
  | recategorizeMethod _ _ _ _ | renameCategory _ _ _ _ | deleteClass _ _ | moveClass _ _ _
  | addDictionary _ | moveDictionaryUp _ | moveDictionaryDown _ => true
  | _ => false

end Snippet

end ImageBrowser.Smalltalk
