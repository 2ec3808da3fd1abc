import ImageBrowser.Records.Basic
import ImageBrowser.Smalltalk.Snippet

/-!
Reading reports: one record a line, its fields set apart by tabs. A line that does not hold what
its report needs is left out, and never spoils another line.
-/

namespace ImageBrowser

open Text

def rowsOf (least : Int) (report : String) : List (List String) :=
  ((lines report).map fields).filter fun row => least ≤ row.length

def DictionaryEntry.ofLine? (line : String) : Option DictionaryEntry :=
  match fields line with
  | flag :: category :: name :: _ => if name = "" then none else some ⟨flag = "1", category, name⟩
  | _ => none

def metaSuffix : String := " class"

/-- Empty fields do not count here. -/
def EnvironmentCategory.ofLine? (line : String) : Option EnvironmentCategory :=
  match nonempty (fields line) with
  | receiver :: environment :: category :: selectors =>
    (parseInt? environment).map fun e =>
      ⟨metaSuffix.toList.isSuffixOf receiver.toList, e, category, sortedOnce selectors⟩
  | _ => none

def ClassNameEntry.ofLine? (line : String) : Option ClassNameEntry :=
  match fields line with
  | index :: dictionary :: name :: _ => (parseInt? index).map fun i => ⟨i, dictionary, name⟩
  | _ => none

def HierarchyEntry.ofLine? (line : String) : Option HierarchyEntry :=
  match fields line with
  | dictionary :: name :: kinship :: _ =>
    (Kinship.ofText? kinship).map fun k => ⟨dictionary, name, k⟩
  | _ => none

def FoundMethod.ofLine? (line : String) : Option FoundMethod :=
  match fields line with
  | dictionary :: name :: side :: selector :: category :: _ =>
    if dictionary = Smalltalk.truncationMarker then none
    else some ⟨dictionary, name, side = "1", selector, category⟩
  | _ => none

/-- The number on a row that tells of methods left out; `some none` when it gives none that can
be read. -/
def reportedCount? (line : String) : Option (Option Int) :=
  match fields line with
  | marker :: count :: _ =>
    if marker = Smalltalk.truncationMarker then some (parseInt? count) else none
  | _ => none

def dictionaryEntriesIn (report : String) : List DictionaryEntry :=
  (lines report).filterMap DictionaryEntry.ofLine?

def classEnvironmentsIn (report : String) : List EnvironmentCategory :=
  (lines report).filterMap EnvironmentCategory.ofLine?

def allClassNamesIn (report : String) : List ClassNameEntry :=
  (lines report).filterMap ClassNameEntry.ofLine?

def classHierarchyIn (report : String) : List HierarchyEntry :=
  (lines report).filterMap HierarchyEntry.ofLine?

/-- Of several numbers of methods the last one counts. -/
def foundMethodsIn (report : String) : SearchResults where
  methods := (lines report).filterMap FoundMethod.ofLine?
  reported := (((lines report).filterMap reportedCount?).getLast?).join

end ImageBrowser
