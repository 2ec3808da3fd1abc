import ImageBrowser.Records.Rows

/-!
Writing reports, the way the snippets that a stone executes write them: one row a line, its fields
set apart by tabs, every line ended.
-/

namespace ImageBrowser

open Text

def lineOf (row : List String) : String := "\t".intercalate row ++ "\n"

def reportOf (rows : List (List String)) : String := String.join (rows.map lineOf)

def flagText (b : Bool) : String := if b then "1" else "0"

def DictionaryEntry.row (e : DictionaryEntry) : List String :=
  [flagText e.isClass, if e.isClass then e.category else "", e.name]

def EnvironmentCategory.row (className : String) (e : EnvironmentCategory) : List String :=
  [if e.isMeta then className ++ metaSuffix else className, ofInt e.environment, e.category] ++
    e.selectors ++ [""]

def ClassNameEntry.row (e : ClassNameEntry) : List String :=
  [ofInt e.dictionaryIndex, e.dictionaryName, e.className]

def FoundMethod.row (m : FoundMethod) : List String :=
  [m.dictionaryName, m.className, flagText m.isMeta, m.selector, m.category]

def HierarchyEntry.row (e : HierarchyEntry) : List String :=
  [e.dictionaryName, e.className, e.kinship.text]

def truncationRow (found : Nat) : List String := [Smalltalk.truncationMarker, ofInt found]

def foundMethodsReport (found : List FoundMethod) : String :=
  reportOf
    ((found.take Smalltalk.methodLimit).map FoundMethod.row ++
      if Smalltalk.methodLimit < found.length then [truncationRow found.length] else [])

end ImageBrowser
