import ImageBrowser.Fault

/-! What a tool answers: whether it worked, what went wrong if it did not, and its results. -/

namespace ImageBrowser

structure ErrorReport where
  message : String
  details : List (String × Value) := []
  deriving DecidableEq, Repr

structure Response where
  ok : Bool
  error : Option ErrorReport
  fields : List (String × Value)
  deriving DecidableEq, Repr

namespace ErrorReport

/-- A stone that fails to give the reason of its failure has none. -/
def ofFault : Fault → ErrorReport
  | .stone e =>
    ⟨e.message,
      [("number", e.number), ("is_fatal", e.isFatal), ("reason", e.reason.getD (.text ""))]⟩
  | .refused (.queryFailed message number) => ⟨message, [("number", number)]⟩
  | .refused .busy => ⟨Refusal.busy.message, [("number", .whole 0)]⟩
  | f => ⟨f.message, []⟩

def toValue (e : ErrorReport) : Value := .object (("message", .text e.message) :: e.details)

end ErrorReport

namespace Response

def success (fields : List (String × Value)) : Response := ⟨true, none, fields⟩

def failure (e : ErrorReport) (fields : List (String × Value)) : Response :=
  ⟨false, some e, fields⟩

def ofFault (f : Fault) (fields : List (String × Value)) : Response :=
  failure (.ofFault f) fields

def complaint (message : String) : Response := failure ⟨message, []⟩ []

def toValue (r : Response) : Value :=
  .object (("ok", .flag r.ok) :: (r.error.toList.map fun e => ("error", e.toValue)) ++ r.fields)

end Response

end ImageBrowser
