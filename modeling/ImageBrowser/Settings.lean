import ImageBrowser.Log
import ImageBrowser.Table

/-!
Settings from the environment of the process and from callers. The highest method environment to
browse is looked up afresh every time; a value that is no limit counts as zero.
-/

namespace ImageBrowser

structure Settings where
  override : Value := .null
  environ : Table String Value := .empty
  deriving DecidableEq, Repr

namespace Settings

def limitVariable : String := "STONEBROWSER_MAX_ENVIRONMENT"

/-- The limit that a value stands for; truth values stand for none. -/
def limitOf? (v : Value) : Option Nat :=
  match v with
  | .flag _ => none
  | v => (Text.parseInt? (Text.trimmed v.shown)).bind fun n => if n < 0 then none else some n.toNat

def limitSource (s : Settings) : Value :=
  if s.override = .null then (s.environ.find? limitVariable).getD (.text "0") else s.override

def ignored (v : Value) : Value :=
  match v with
  | .flag _ => .null
  | v => v

def limit (s : Settings) : Nat × Option LogEntry :=
  match limitOf? s.limitSource with
  | some n => (n, none)
  | none => (0, some (.ignoredLimit (ignored s.limitSource)))

def hasNull (s : String) : Bool := s.toList.contains '\x00'

/-- The name of a variable is not empty and has no equals sign; neither the name nor the text has a
null character. -/
def setVariable (environ : Table String Value) (name : String) :
    Value → Except Fault (Table String Value)
  | .text s =>
    if hasNull name || hasNull s then .error (.invalid .nullCharacter)
    else if name.toList.contains '=' then .error (.invalid .variableName)
    else if name = "" then .error .namelessVariable
    else .ok (environ.insert name (.text s))
  | v => .error (.mismatch (.notText v.typeName))

def processEnviron (entries : List (String × Value)) : Except Fault (Table String Value) :=
  entries.foldlM (fun environ entry => setVariable environ entry.1 entry.2) .empty

def trueWords : List String := ["1", "true", "yes", "on"]

/-- Whether a variable of the environment says yes; case and blanks around it do not count. -/
def flag (environ : Table String Value) (name : String) : Bool :=
  match environ.find? name with
  | some v => trueWords.contains (Text.trimmed v.shown).toLower
  | none => false

def flagNamed (environ : Table String Value) : Value → Except Fault Bool
  | .text name => .ok (flag environ name)
  | v => .error (.mismatch (.notText v.typeName))

end Settings

end ImageBrowser
