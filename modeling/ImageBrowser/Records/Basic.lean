import ImageBrowser.Fault

/-!
What a stone reports about its class library, one record for each row of a report, and the common
view of all records as named fields.
-/

namespace ImageBrowser

structure DictionaryEntry where
  isClass : Bool
  category : String
  name : String
  deriving DecidableEq, Repr

structure EnvironmentCategory where
  isMeta : Bool
  environment : Int
  category : String
  selectors : List String
  deriving DecidableEq, Repr

structure ClassNameEntry where
  dictionaryIndex : Int
  dictionaryName : String
  className : String
  deriving DecidableEq, Repr

structure FoundMethod where
  dictionaryName : String
  className : String
  isMeta : Bool
  selector : String
  category : String
  deriving DecidableEq, Repr

inductive Kinship
  | superclass
  | self
  | subclass
  deriving DecidableEq, Repr

structure HierarchyEntry where
  dictionaryName : String
  className : String
  kinship : Kinship
  deriving DecidableEq, Repr

structure SearchResults where
  methods : List FoundMethod
  reported : Option Int
  deriving DecidableEq, Repr

namespace Kinship

def text : Kinship → String
  | superclass => "superclass"
  | self => "self"
  | subclass => "subclass"

def ofText? (s : String) : Option Kinship :=
  [superclass, self, subclass].find? fun k => k.text = s

end Kinship

namespace SearchResults

def totalCount (r : SearchResults) : Int := r.reported.getD r.methods.length

def truncated (r : SearchResults) : Bool := r.methods.length < r.totalCount

end SearchResults

inductive RecordKind
  | bare
  | dictionaryEntry
  | environmentCategory
  | classNameEntry
  | foundMethod
  | hierarchyEntry
  deriving DecidableEq, Repr

namespace RecordKind

def all : List RecordKind :=
  [bare, dictionaryEntry, environmentCategory, classNameEntry, foundMethod, hierarchyEntry]

def name : RecordKind → String
  | bare => "Record"
  | dictionaryEntry => "DictionaryEntry"
  | environmentCategory => "EnvironmentCategory"
  | classNameEntry => "ClassNameEntry"
  | foundMethod => "MethodSearchResult"
  | hierarchyEntry => "ClassHierarchyEntry"

def fieldNames : RecordKind → List String
  | bare => []
  | dictionaryEntry => ["is_class", "category", "name"]
  | environmentCategory => ["is_meta", "environment_id", "category", "selectors"]
  | classNameEntry => ["dictionary_index", "dictionary_name", "class_name"]
  | foundMethod => ["dictionary_name", "class_name", "is_meta", "selector", "category"]
  | hierarchyEntry => ["dictionary_name", "class_name", "kind"]

def ofName? (s : String) : Option RecordKind := all.find? fun k => k.name = s

end RecordKind

def describeFields (name : String) (fields : List (String × Value)) : String :=
  name ++ "(" ++ ", ".intercalate (fields.map fun f => f.1 ++ "=" ++ f.2.quoted) ++ ")"

structure Record where
  kind : RecordKind
  values : List Value
  deriving DecidableEq, Repr

namespace Record

def ofValues (kind : RecordKind) (values : List Value) : Except Fault Record :=
  if values.length = kind.fieldNames.length then .ok ⟨kind, values⟩
  else .error (.mismatch .wrongArguments)

def fields (r : Record) : List (String × Value) := r.kind.fieldNames.zip r.values

def toValue (r : Record) : Value := .object r.fields

def describe (r : Record) : String := describeFields r.kind.name r.fields

def same (a b : Record) : Bool := a.kind = b.kind && (Value.list a.values).same (.list b.values)

def isKey (r : Record) : Bool :=
  r.values.all fun v => match v with
    | .list items => items.all Value.isKey
    | v => v.isKey

end Record

def DictionaryEntry.record (e : DictionaryEntry) : Record :=
  ⟨.dictionaryEntry, [.flag e.isClass, .text e.category, .text e.name]⟩

def EnvironmentCategory.record (e : EnvironmentCategory) : Record :=
  ⟨.environmentCategory,
    [.flag e.isMeta, .whole e.environment, .text e.category, .list (e.selectors.map .text)]⟩

def ClassNameEntry.record (e : ClassNameEntry) : Record :=
  ⟨.classNameEntry, [.whole e.dictionaryIndex, .text e.dictionaryName, .text e.className]⟩

def FoundMethod.record (m : FoundMethod) : Record :=
  ⟨.foundMethod,
    [.text m.dictionaryName, .text m.className, .flag m.isMeta, .text m.selector,
      .text m.category]⟩

def HierarchyEntry.record (e : HierarchyEntry) : Record :=
  ⟨.hierarchyEntry, [.text e.dictionaryName, .text e.className, .text e.kinship.text]⟩

def SearchResults.toValue (r : SearchResults) : Value :=
  .object
    [("methods", .list (r.methods.map fun m => m.record.toValue)),
      ("truncated", .flag r.truncated), ("total_count", .whole r.totalCount)]

end ImageBrowser
