import ImageBrowser.Value

/-!
The ways in which an operation can fail, each with its cause, and the message of each. Which of
them a caller handles is decided by `isRefusal` and `isFromStone` alone.
-/

namespace ImageBrowser

/-- An object that lives in a stone, known here by a number, by what it is described with, and by
what the interface to the stone prints for it. -/
structure RemoteObject where
  id : Nat
  description : Value
  printed : String
  deriving DecidableEq, Repr

/-- A failure that the stone reported. The reason is asked for on demand, and `none` stands for a
stone that fails to give it. -/
structure StoneError where
  message : String
  number : Value
  context : Option RemoteObject
  isFatal : Value
  reason : Option Value
  deriving DecidableEq, Repr

inductive Misuse
  | noResultClass
  | notText (typeName : String)
  | unsupportedOptions
  | reported (message : String)
  deriving DecidableEq, Repr

inductive Refusal
  | nothingSelected
  | notConnected
  | unknownSession
  | nothingAsked
  | noContent (kind : String)
  | loginFailed (message : String)
  | queryFailed (message : String) (number : Value)
  | busy
  deriving DecidableEq, Repr

inductive Invalid
  | numeral (e : Text.NumeralError)
  | tooManyDigits
  | unknownKind (kind : Value)
  | notLocator (shown : String)
  | unknownLocator (shown : String)
  | openBracket
  | unclearAuthority (authority : String)
  | futureAddress
  | bracketedAddress
  | notAddress (host : String)
  | notPair (index length : Nat)
  | nullCharacter
  | variableName
  | notANumber
  deriving DecidableEq, Repr

inductive Mismatch
  | notNumber (typeName : String)
  | notKey (typeName : String)
  | notIterable (typeName : String)
  | notSequence (index : Nat)
  | fieldNames
  | ownField
  | wrongFields (node : String) (expected : List String)
  | notOrdered (typeName : String)
  | incomparable
  | notText (typeName : String)
  | notIndex
  | notCallable (typeName : String)
  | noLogLevel
  | wrongArguments
  deriving DecidableEq, Repr

inductive Fault
  | stone (e : StoneError)
  | misuse (m : Misuse)
  | refused (r : Refusal)
  | invalid (i : Invalid)
  | mismatch (m : Mismatch)
  | noSuchOperation (typeName operation : String)
  | missingKey (key : Value)
  | unbounded
  | namelessVariable
  | crash (message : String)
  deriving DecidableEq, Repr

def Misuse.message : Misuse → String
  | noResultClass => "A result class is required to fetch a string."
  | notText typeName => "Expected a string result, got " ++ typeName ++ "."
  | unsupportedOptions => "Override selectors and compile flags are not supported."
  | reported message => message

def Refusal.message : Refusal → String
  | nothingSelected => "No session is selected."
  | notConnected => "No session is selected. Call gs_connect first."
  | unknownSession => "Unknown session_id."
  | nothingAsked => "Either node or locator is required."
  | noContent kind => kind ++ " nodes have no content."
  | loginFailed message => "Gemstone error: " ++ message
  | queryFailed message _ => message
  | busy => "Session is busy with another operation. Please wait or use a different session."

def Invalid.message : Invalid → String
  | numeral e => e.message
  | tooManyDigits =>
    "Exceeds the limit (" ++ Text.ofInt Text.maxDigits ++ " digits) for integer string " ++
      "conversion; use sys.set_int_max_str_digits() to increase the limit"
  | unknownKind kind => "Unknown node kind: " ++ kind.quoted
  | notLocator shown => "Not a gemstone locator: " ++ shown
  | unknownLocator shown => "Unrecognised gemstone locator: " ++ shown
  | openBracket => "Invalid IPv6 URL"
  | unclearAuthority authority =>
    "netloc '" ++ authority ++ "' contains invalid characters under NFKC normalization"
  | futureAddress => "IPvFuture address is invalid"
  | bracketedAddress => "An IPv4 address cannot be in brackets"
  | notAddress host => Text.quoted host ++ " does not appear to be an IPv4 or IPv6 address"
  | notPair index length =>
    "dictionary update sequence element #" ++ Text.ofInt index ++ " has length " ++
      Text.ofInt length ++ "; 2 is required"
  | nullCharacter => "embedded null byte"
  | variableName => "illegal environment variable name"
  | notANumber => "cannot convert float NaN to integer"

/-- No field of a node can have this name, which is that of the node itself. -/
def ownFieldName : String := "self"

def Mismatch.message : Mismatch → String
  | notNumber typeName => "%d format: a real number is required, not " ++ typeName
  | notKey typeName => "unhashable type: '" ++ typeName ++ "'"
  | notIterable typeName => "'" ++ typeName ++ "' object is not iterable"
  | notSequence index =>
    "cannot convert dictionary update sequence element #" ++ Text.ofInt index ++ " to a sequence"
  | fieldNames => "keywords must be strings"
  | ownField => "BrowserNode.__init__() got multiple values for argument '" ++ ownFieldName ++ "'"
  | wrongFields node expected => node ++ " expects fields " ++ ", ".intercalate expected
  | notOrdered typeName => "'>' not supported between instances of '" ++ typeName ++ "' and 'int'"
  | incomparable => "'<' not supported between the values to sort"
  | notText typeName => "str expected, not " ++ typeName
  | notIndex => "slice indices must be integers or None"
  | notCallable typeName => "'" ++ typeName ++ "' object is not callable"
  | noLogLevel => "attribute name must be string"
  | wrongArguments => "wrong arguments"

namespace Fault

def message : Fault → String
  | stone e => e.message
  | misuse m => m.message
  | refused r => r.message
  | invalid i => i.message
  | mismatch m => m.message
  | noSuchOperation typeName operation =>
    "'" ++ typeName ++ "' object has no attribute '" ++ operation ++ "'"
  | missingKey key => key.shown
  | unbounded => "cannot convert float infinity to integer"
  | namelessVariable => "[Errno 22] Invalid argument"
  | crash message => message

def isFromStone : Fault → Bool
  | stone _ => true
  | misuse _ => true
  | _ => false

def isRefusal : Fault → Bool
  | refused _ => true
  | _ => false

def isExpected (f : Fault) : Bool := f.isRefusal || f.isFromStone

def stoneNumber : Fault → Value
  | stone e => e.number
  | _ => .whole 0

end Fault

namespace Value

def asTextFor (operation : String) : Value → Except Fault String
  | text s => .ok s
  | v => .error (.noSuchOperation v.typeName operation)

def asText (v : Value) : Except Fault String := v.asTextFor "replace"

/-- The number that goes into a place for a whole number; what follows its point is cut off. -/
def asNumber : Value → Except Fault Int
  | flag b => .ok (if b then 1 else 0)
  | whole n => .ok n
  | fraction (.finite x) => .ok x.truncate
  | fraction (.infinite _) => .error .unbounded
  | fraction .undefined => .error (.invalid .notANumber)
  | v => .error (.mismatch (.notNumber v.typeName))

def asWritable (v : Value) : Except Fault Value :=
  if v.isWritable then .ok v else .error (.invalid .tooManyDigits)

def asKey (v : Value) : Except Fault Value :=
  if v.isKey then .ok v else .error (.mismatch (.notKey v.typeName))

def asPositive (v : Value) : Except Fault Bool :=
  match v.isPositive? with
  | some b => .ok b
  | none => .error (.mismatch (.notOrdered v.typeName))

def asItems (v : Value) : Except Fault (List Value) :=
  match v.items? with
  | some items => .ok items
  | none => .error (.mismatch (.notIterable v.typeName))

end Value

end ImageBrowser
