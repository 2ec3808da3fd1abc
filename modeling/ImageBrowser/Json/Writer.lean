import ImageBrowser.Value

/-! Values as JSON text on one line. -/

namespace ImageBrowser.Json

def escaped (c : Char) : List Char :=
  if c = '"' || c = '\\' then ['\\', c]
  else if c = '\n' then ['\\', 'n']
  else if c = '\r' then ['\\', 'r']
  else if c = '\t' then ['\\', 't']
  else if c.toNat < 0x20 then '\\' :: 'u' :: Text.hexText 4 c.toNat
  else [c]

def writeText (s : String) : String :=
  String.ofList ('"' :: s.toList.flatMap escaped ++ ['"'])

def writeFloating : Floating → String
  | .finite x => x.shown
  | .infinite negative => if negative then "-Infinity" else "Infinity"
  | .undefined => "NaN"

mutual

def write : Value → String
  | .null => "null"
  | .flag b => if b then "true" else "false"
  | .whole n => Text.ofInt n
  | .fraction x => writeFloating x
  | .text s => writeText s
  | .list items => "[" ++ ",".intercalate (writeItems items) ++ "]"
  | .object fields => "\x7b" ++ ",".intercalate (writeFields fields) ++ "\x7d"

def writeItems : List Value → List String
  | [] => []
  | v :: vs => write v :: writeItems vs

def writeFields : List (String × Value) → List String
  | [] => []
  | (k, v) :: fs => (writeText k ++ ":" ++ write v) :: writeFields fs

end

end ImageBrowser.Json
