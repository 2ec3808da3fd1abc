import ImageBrowser.Records.Rows

/-! The readers of reports by name, with their results as values. -/

namespace ImageBrowser

open Text

inductive Decoder
  | lines
  | rows
  | wholeNumber
  | dictionaryEntries
  | classEnvironments
  | allClassNames
  | foundMethods
  | classHierarchy
  deriving DecidableEq, Repr

namespace Decoder

def all : List Decoder := [
  lines, rows, wholeNumber, dictionaryEntries, classEnvironments, allClassNames, foundMethods,
  classHierarchy]

def name : Decoder → String
  | lines => "split_lines"
  | rows => "tab_delimited_records"
  | wholeNumber => "parsed_integer"
  | dictionaryEntries => "parse_dictionary_entries"
  | classEnvironments => "parse_class_environments"
  | allClassNames => "parse_all_class_names"
  | foundMethods => "parse_method_search_results"
  | classHierarchy => "parse_class_hierarchy"

def ofName? (s : String) : Option Decoder := all.find? fun d => d.name = s

def rowsFrom (least : Value) (report : String) : Except Fault (List (List String)) :=
  if (Text.lines report).isEmpty then .ok []
  else match least.magnitude? with
    | some m => .ok ((rowsOf 0 report).filter fun row => m.isAtMost (.ofInt row.length))
    | none => .error (.mismatch (.notOrdered least.typeName))

def listOf {α : Type} (record : α → Record) (items : List α) : Value :=
  .list (items.map fun a => (record a).toValue)

def parsed : Value → Except Fault Value
  | .text s => .ok (((parseInt? s).map Value.whole).getD .null)
  | v => .error (.mismatch (.notText v.typeName))

def run : Decoder → List Value → Except Fault Value
  | rows, [report, least] => do
    return .list ((← rowsFrom least (← report.asTextFor "split")).map Value.texts)
  | wholeNumber, [report] => parsed report
  | lines, [report] => do return Value.texts (Text.lines (← report.asTextFor "split"))
  | dictionaryEntries, [report] => do
    return listOf DictionaryEntry.record (dictionaryEntriesIn (← report.asTextFor "split"))
  | classEnvironments, [report] => do
    return listOf EnvironmentCategory.record (classEnvironmentsIn (← report.asTextFor "split"))
  | allClassNames, [report] => do
    return listOf ClassNameEntry.record (allClassNamesIn (← report.asTextFor "split"))
  | foundMethods, [report] => do return (foundMethodsIn (← report.asTextFor "split")).toValue
  | classHierarchy, [report] => do
    return listOf HierarchyEntry.record (classHierarchyIn (← report.asTextFor "split"))
  | _, _ => .error (.mismatch .wrongArguments)

def call (name : String) (args : List Value) : Except Fault Value :=
  match ofName? name with
  | some d => d.run args
  | none => .error (.noSuchOperation "records" name)

end Decoder

end ImageBrowser
