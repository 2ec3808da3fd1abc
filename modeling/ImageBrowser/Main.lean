import ImageBrowser.CommandLine
import ImageBrowser.Json.Reader
import ImageBrowser.Json.Writer
import ImageBrowser.Server

/-!
The server as a program. Each line that it reads is a JSON object that calls a tool, with the name
of the tool as `tool` and its arguments by name as `args`, and is answered by a line of JSON. No
stone can be reached from here, so every login fails.
-/

namespace ImageBrowser.Main

def unreachable : Fault :=
  .stone
    { message := "No interface to a stone is linked.", number := .whole 0, context := none,
      isFatal := .flag true, reason := none }

def showLog (e : LogEntry) : IO Unit := do
  (← IO.getStderr).putStrLn (e.level.name ++ ":" ++ e.logger ++ ":" ++ e.message)

def answer (state : IO.Ref World) (showsLog : LogEntry → Bool) : (a : Action) → IO a.Reply
  | .step s => state.modifyGet fun w => w.step s
  | .ask _ _ => return .error unreachable
  | .login _ => return .error unreachable
  | .wait _ => return .error unreachable
  | .tell _ _ => return .ok ()
  | .report _ => return .ok ()
  | .log e => if showsLog e then showLog e else return ()

def field (fields : List (String × Value)) (name : String) : Value :=
  (fields.lookup name).getD .null

def argumentsOf : Value → List (String × Value)
  | .object fields => fields
  | _ => []

def call (switches : Switches) (line : String) : Program Response :=
  match Json.read? line with
  | some (.object fields) =>
    match (field fields "tool").text?.bind Tool.ofName? with
    | some t => Tools.call switches t (argumentsOf (field fields "args"))
    | none => Program.fail (.missingKey (field fields "tool"))
  | _ => Program.fail (.mismatch .wrongArguments)

def shown : Except Fault Response → String
  | .ok r => Json.write r.toValue
  | .error f => Json.write (Response.ofFault f []).toValue

def showsAt (level : String) (e : LogEntry) : Bool :=
  level = "DEBUG" || (e.level = .warning && level ≠ "ERROR")

partial def serve (switches : Switches) (state : IO.Ref World) (showsLog : LogEntry → Bool)
    (input output : IO.FS.Stream) : IO Unit := do
  let line ← input.getLine
  if line.isEmpty then return
  let outcome ← Program.interpret (answer state showsLog) (call switches line)
  output.putStrLn (shown outcome)
  output.flush
  serve switches state showsLog input output

def variableNames : List String :=
  [Settings.limitVariable, CommandLine.mutationVariable, CommandLine.compileVariable]

def readEnviron : IO (Table String Value) :=
  variableNames.foldlM
    (fun t name => return ((← IO.getEnv name).map fun s => t.insert name (.text s)).getD t) .empty

def run (o : CommandLine.Options) (level : String) (environ : Table String Value) : IO Unit := do
  let state ← IO.mkRef (Server.initial (o.settings environ))
  serve ⟨o.allowMutation, o.allowCompile⟩ state (showsAt level) (← IO.getStdin) (← IO.getStdout)

def complain (message : String) : IO Unit := do
  (← IO.getStderr).putStrLn message

end ImageBrowser.Main

open ImageBrowser in
def main (arguments : List String) : IO UInt32 := do
  let environ ← Main.readEnviron
  match CommandLine.parse environ (arguments.map .text) with
  | .run o =>
    match o.level with
    | .ok level =>
      Main.run o level environ
      return 0
    | .error f =>
      Main.complain f.message
      return 1
  | .help =>
    IO.println (" ".intercalate (CommandLine.programName :: CommandLine.Switch.all.map (·.name)))
    return 0
  | .usage e =>
    Main.complain e.report
    return 2
  | .fault f =>
    Main.complain f.message
    return 1
