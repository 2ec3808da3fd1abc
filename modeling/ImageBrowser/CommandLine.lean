import ImageBrowser.Settings

/-!
The command line of the server: which words are options, which are their arguments, and the first
error when they make no sense. Long options may be shortened as far as only one has that
beginning, take an argument after an equals sign or in the next word, and the last one counts.

Callers may pass other values among the words. An empty value, or a list that begins with text, is
taken for a word that is no option; with any other value the line cannot be read.
-/

namespace ImageBrowser.CommandLine

inductive Switch
  | help
  | transport
  | allowMutation
  | allowCompile
  | maxEnvironment
  | logLevel
  deriving DecidableEq, Repr

namespace Switch

def all : List Switch := [help, transport, allowMutation, allowCompile, maxEnvironment, logLevel]

def name : Switch → String
  | help => "--help"
  | transport => "--transport"
  | allowMutation => "--allow-mutation"
  | allowCompile => "--allow-compile"
  | maxEnvironment => "--max-environment"
  | logLevel => "--log-level"

def title : Switch → String
  | help => "-h/--help"
  | s => s.name

def takesArgument : Switch → Bool
  | transport | maxEnvironment | logLevel => true
  | _ => false

def choices : Switch → List String
  | transport => ["stdio"]
  | logLevel => ["DEBUG", "INFO", "WARNING", "ERROR"]
  | _ => []

end Switch

/-- A switch can be given no argument at all, by two dashes in its place; `maxEnvironment` is `none`
when the switch is not there. -/
structure Options where
  transport : Option String
  allowMutation : Bool
  allowCompile : Bool
  maxEnvironment : Option (Option Nat)
  logLevel : Option String
  deriving DecidableEq, Repr

inductive UsageError
  | ambiguous (word : String) (candidates : List Switch)
  | argumentExpected (s : Switch)
  | argumentIgnored (s : Switch) (argument : String)
  | invalidChoice (s : Switch) (argument : Value)
  | notInteger (argument : String)
  | negative (argument : String)
  | notNumeral (argument : Value)
  | unrecognized (words : List String)
  deriving DecidableEq, Repr

def UsageError.about (s : Switch) (message : String) : String :=
  "argument " ++ s.title ++ ": " ++ message

def UsageError.message : UsageError → String
  | ambiguous word candidates =>
    "ambiguous option: " ++ word ++ " could match " ++ ", ".intercalate (candidates.map Switch.name)
  | argumentExpected s => about s "expected one argument"
  | argumentIgnored s argument => about s ("ignored explicit argument " ++ Text.quoted argument)
  | invalidChoice s argument =>
    about s ("invalid choice: " ++ argument.quoted ++ " (choose from " ++
      ", ".intercalate (s.choices.map Text.quoted) ++ ")")
  | notInteger argument => about .maxEnvironment (Text.quoted argument ++ " is not an integer.")
  | negative argument => about .maxEnvironment (Text.quoted argument ++ " is negative.")
  | notNumeral argument =>
    about .maxEnvironment ("invalid non_negative_integer value: " ++ argument.quoted)
  | unrecognized words => "unrecognized arguments: " ++ " ".intercalate words

def programName : String := "stonebrowser-mcp"

def UsageError.report (e : UsageError) : String := programName ++ ": error: " ++ e.message

/-- What a word is, before its neighbours are looked at. The short form of `help` keeps what is
written behind it. -/
inductive Word
  | plain
  | unknown
  | switch (s : Switch) (attached : Option String)
  | short (attached : Option (List Char))
  deriving DecidableEq, Repr

def isDigit (c : Char) : Bool := (Text.decimalDigit? c).isSome

def isNegativeNumber : List Char → Bool
  | '-' :: cs =>
    let cs := if cs.getLast? = some '\n' then cs.dropLast else cs
    match Text.cut '.' cs with
    | (whole, none) => !whole.isEmpty && whole.all isDigit
    | (whole, some fraction) => whole.all isDigit && !fraction.isEmpty && fraction.all isDigit
  | _ => false

def startingWith (beginning : List Char) : List Switch :=
  Switch.all.filter fun s => beginning.isPrefixOf s.name.toList

def longWord (word : String) : Except UsageError Word :=
  let (beginning, argument) := Text.cut '=' word.toList
  let attached := argument.map String.ofList
  match Switch.all.find? fun s => s.name.toList = beginning with
  | some s => .ok (.switch s attached)
  | none =>
    match startingWith beginning with
    | [] => .ok (if word.toList.contains ' ' then .plain else .unknown)
    | [s] => .ok (.switch s attached)
    | candidates => .error (.ambiguous word candidates)

def textWord (word : String) : Except UsageError Word :=
  match word.toList with
  | '-' :: '-' :: _ => longWord word
  | ['-', 'h'] => .ok (.short none)
  | '-' :: 'h' :: '=' :: cs => .ok (.short (some cs))
  | '-' :: 'h' :: cs => .ok (.short (some cs))
  | '-' :: c :: cs =>
    .ok (if isNegativeNumber ('-' :: c :: cs) || (c :: cs).contains ' ' then .plain else .unknown)
  | _ => .ok .plain

/-- Behind the short form of `help` there may only be more of the same. -/
def shortHelp : List Char → Except UsageError Unit
  | ['h'] => .ok ()
  | 'h' :: cs => shortHelp cs
  | cs => .error (.argumentIgnored .help (String.ofList cs))

def nonNegative : Value → Except UsageError Nat
  | .text argument =>
    match Text.parseInt? argument with
    | none => .error (.notInteger argument)
    | some n => if n < 0 then .error (.negative argument) else .ok n.toNat
  | v => .error (.notNumeral v)

def choose (s : Switch) (argument : Value) : Except UsageError String :=
  match s.choices.find? fun c => argument = .text c with
  | some c => .ok c
  | none => .error (.invalidChoice s argument)

/-- What is written behind an equals sign; two dashes stand for nothing. -/
def attachedArgument (argument : String) : Option Value :=
  if argument = "--" then none else some (.text argument)

def Options.withArgument (o : Options) (s : Switch) (argument : Option Value) :
    Except UsageError Options :=
  match s with
  | .transport => do return { o with transport := ← argument.mapM (choose s) }
  | .logLevel => do return { o with logLevel := ← argument.mapM (choose s) }
  | .maxEnvironment => do return { o with maxEnvironment := some (← argument.mapM nonNegative) }
  | _ => .ok o

def Options.withFlag (o : Options) : Switch → Options
  | .allowMutation => { o with allowMutation := true }
  | .allowCompile => { o with allowCompile := true }
  | _ => o

inductive Outcome
  | run (o : Options)
  | help
  | usage (e : UsageError)
  | fault (f : Fault)
  deriving DecidableEq, Repr

def otherWord (v : Value) : Except Fault Word :=
  if !v.isTruthy then .ok .plain
  else match v with
    | .list (.text s :: _) =>
      if s = "" || s = "-" then .error (.mismatch (.notKey v.typeName)) else .ok .plain
    | .object _ => .error (.missingKey (.whole 0))
    | v => .error (.mismatch (.notText v.typeName))

def wordOf : Value → Except Outcome Word
  | .text word => (textWord word).mapError .usage
  | v => (otherWord v).mapError .fault

/-- All words after a lone pair of dashes are plain, and so is the pair. -/
def wordsOf : List Value → Except Outcome (List (Value × Word))
  | [] => .ok []
  | word :: rest => do
    if word = .text "--" then return (word :: rest).map fun w => (w, .plain)
    return (word, ← wordOf word) :: (← wordsOf rest)

def leftOver (extras : List Value) : Outcome :=
  match extras.mapM Value.text? with
  | some words => .usage (.unrecognized words)
  | none => .fault (.mismatch .wrongArguments)

def fromWords (o : Options) (extras : List Value) : List (Value × Word) → Outcome
  | [] => if extras.isEmpty then .run o else leftOver extras
  | (word, .plain) :: rest | (word, .unknown) :: rest => fromWords o (extras ++ [word]) rest
  | (_, .short none) :: _ => .help
  | (_, .short (some cs)) :: _ =>
    match shortHelp cs with
    | .ok () => .help
    | .error e => .usage e
  | (_, .switch s attached) :: rest =>
    if s.takesArgument then
      match attached, rest with
      | some argument, rest => take o s (attachedArgument argument) rest
      | none, (argument, .plain) :: rest =>
        if argument = .text "--" then .usage (.argumentExpected s)
        else take o s (some argument) rest
      | none, _ => .usage (.argumentExpected s)
    else
      match attached with
      | some argument => .usage (.argumentIgnored s argument)
      | none => if s = .help then .help else fromWords (o.withFlag s) extras rest
where
  take (o : Options) (s : Switch) (argument : Option Value) (rest : List (Value × Word)) :
      Outcome :=
    match o.withArgument s argument with
    | .ok o => fromWords o extras rest
    | .error e => .usage e

def mutationVariable : String := "STONEBROWSER_ALLOW_MUTATION"

def compileVariable : String := "STONEBROWSER_ALLOW_COMPILE"

def defaults (environ : Table String Value) : Options where
  transport := some "stdio"
  allowMutation := Settings.flag environ mutationVariable
  allowCompile := Settings.flag environ compileVariable
  maxEnvironment := none
  logLevel := some "WARNING"

def parse (environ : Table String Value) (arguments : List Value) : Outcome :=
  match wordsOf arguments with
  | .ok words => fromWords (defaults environ) [] words
  | .error outcome => outcome

def limitValue : Option (Option Nat) → Value
  | none => .null
  | some none => .list []
  | some (some n) => .whole n

def Options.settings (o : Options) (environ : Table String Value) : Settings where
  override := limitValue o.maxEnvironment
  environ := environ

def Options.level (o : Options) : Except Fault String :=
  match o.logLevel with
  | some level => .ok level
  | none => .error (.mismatch .noLogLevel)

end ImageBrowser.CommandLine
