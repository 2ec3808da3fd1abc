import ImageBrowser.Records.Decoder

/-! All that can be had by name of records: the readers of reports, and the records themselves. -/

namespace ImageBrowser.Records

def resultsOf (items total : Value) : Except Fault Value := do
  let methods ← items.asItems
  let total := if total = .null then .whole methods.length else total
  match total.magnitude? with
  | some found =>
    let truncated := (Magnitude.ofInt methods.length).isBelow found
    return .object
      [("methods", .list methods), ("truncated", .flag truncated), ("total_count", total)]
  | none => throw (.mismatch (.notOrdered total.typeName))

def searchResultsName : String := "MethodSearchResults"

/-- The mark of the line that tells how many methods a search found; it is text and no operation. -/
def markerName : String := "TRUNCATION_MARKER"

def searchResults : List Value → Except Fault Value
  | [] => resultsOf (.list []) .null
  | [items] => resultsOf items .null
  | [items, total] => resultsOf items total
  | _ => .error (.mismatch .wrongArguments)

def call (name : String) (args : List Value) : Except Fault Value :=
  if name = searchResultsName then searchResults args
  else if name = markerName then .error (.mismatch (.notCallable "str"))
  else match RecordKind.ofName? name with
    | some kind => (Record.ofValues kind args).map Record.toValue
    | none => Decoder.call name args

end ImageBrowser.Records
