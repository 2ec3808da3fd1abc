import ImageBrowser.Program
import ImageBrowser.Smalltalk.Snippet

/-!
The calls of a session. Each counts itself as running from just before its first request to just
after its last, and a logical call claims the session around all calls that it makes.
-/

namespace ImageBrowser

def printedObject : Option RemoteObject → String
  | some o => o.printed
  | none => Value.null.quoted

namespace Handle

def calling {α : Type} (h : Handle) (body : Program α) : Program α := do
  Program.step (.enter h.number)
  body.ensure (Program.step (.leave h.number))

def ask (h : Handle) (r : Request) : Program r.Answer := Program.ask h.connection r

def resolve (h : Handle) (name : Value) : Program (Option RemoteObject) :=
  h.calling (h.ask (.resolve name))

def cutAt (limit : Value) (s : String) : Except Fault String :=
  match limit with
  | .null => .ok s
  | .flag b => .ok (Text.upTo (if b then 1 else 0) s)
  | .whole n => .ok (Text.upTo n s)
  | _ => .error (.mismatch .notIndex)

/-- The text that a source answers, cut at `limit`. The class that results are to be answered in is
checked here and used by the stone's interface itself. -/
def fetchText (h : Handle) (source : Value) (resultClass : Option RemoteObject) (limit : Value) :
    Program String := do
  if resultClass.isNone then Program.fail (.misuse .noResultClass)
  else
    let answer ← h.calling do
      let object ← h.ask (.execute source)
      h.ask (.fetch object)
    match answer with
    | .text s => Program.ofExcept (cutAt limit s)
    | v => Program.fail (.misuse (.notText v.typeName))

def newString (h : Handle) (content : Value) : Program RemoteObject :=
  h.calling (h.ask (.create content))

def newSymbol (h : Handle) (content : Value) : Program RemoteObject :=
  h.calling do
    let object ← h.ask (.create content)
    h.ask (.toSymbol object)

def presentFor (message : String) : Option RemoteObject → Except Fault RemoteObject
  | some o => .ok o
  | none => .error (.noSuchOperation Value.null.typeName message)

def perform (h : Handle) (receiver : Option RemoteObject) (selector : Value)
    (arguments : List (Option RemoteObject)) : Program RemoteObject :=
  h.calling do
    let receiver ← Program.ofExcept (presentFor "perform" receiver)
    let arguments ← Program.ofExcept (arguments.mapM (presentFor "description"))
    h.ask (.perform selector receiver arguments)

structure CompileOptions where
  symbolList : Option RemoteObject := none
  overrideSelector : Value := .null
  flags : Value := .whole 0
  environment : Value := .whole 0

/-- Without a symbol list the user's own is taken. -/
def compile (h : Handle) (source behavior category : Option RemoteObject)
    (options : CompileOptions) : Program RemoteObject := do
  if options.overrideSelector ≠ .null || options.flags.isTruthy then
    Program.fail (.misuse .unsupportedOptions)
  else
    h.calling do
      let symbolList ← match options.symbolList with
        | some o => Program.done o
        | none => h.ask (.execute (.text Smalltalk.symbolList))
      let behavior ← Program.ofExcept
        (presentFor "compileMethod_dictionaries_category_environmentId" behavior)
      let source ← Program.ofExcept (presentFor "description" source)
      let category ← Program.ofExcept (presentFor "description" category)
      h.ask (.compile source behavior symbolList category options.environment)

def clearStack (h : Handle) (context : Option RemoteObject) : Program Unit :=
  h.calling do
    let context ← Program.ofExcept (presentFor "terminate" context)
    h.ask (.terminate context)

def begin (h : Handle) : Program Unit := h.calling (h.ask .begin)

def commit (h : Handle) : Program Unit := h.calling (h.ask .commit)

def abort (h : Handle) : Program Unit := h.calling (h.ask .abort)

def exclusively {α : Type} (h : Handle) (body : Program α) : Program α := do
  if ← Program.step (.claim h.number) then
    body.ensure (Program.step (.release h.number))
  else
    Program.log (.error h.sessionId Refusal.busy.message)
    Program.fail (.refused .busy)

end Handle

namespace Connection

def logOut (c : Connection) : Program Unit := Program.ask c .logOut

def summary (c : Connection) : Program Value := do
  let value (r : Request) (h : r.Answer = RemoteObject) : Program Value := do
    let object ← Program.ask c r
    Program.ask c (.fetch (cast h object))
  let stone ← value .stoneName rfl
  let host ← value .hostName rfl
  let user ← value .userId rfl
  let session ← value (.execute (.text "System session")) rfl
  return .object
    [("stone_name", stone), ("host_name", host), ("user_name", user), ("session_id", session)]

end Connection

def Login.entry : Login → LogEntry
  | linked user _ stone => .linkedLogin user stone
  | remote user _ stone service => .remoteLogin user stone service

def serviceName (host service : Value) : String :=
  "!@" ++ host.shown ++ "#netldi:" ++ service.shown ++ "!gemnetobject"

def Login.remoteOn (user password host stone service : Value) : Login :=
  .remote user password stone (serviceName host service)

/-- A failure of the stone to log in is a refusal; other failures stay what they are. -/
def Login.open (l : Login) : Program Connection := do
  Program.log l.entry
  let isStone : Fault → Bool
    | .stone _ => true
    | _ => false
  (Program.login l).handling isStone fun f =>
    Program.fail (.refused (.loginFailed f.message))

end ImageBrowser
