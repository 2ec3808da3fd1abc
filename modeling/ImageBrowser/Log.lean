import ImageBrowser.Fault

/-! What is logged, and how each entry reads. -/

namespace ImageBrowser

inductive LogLevel
  | debug
  | warning
  deriving DecidableEq, Repr

inductive LogEntry
  | query (session : Value) (label code : String)
  | result (session : Value) (data : String)
  | error (session : Value) (message : String)
  | called (session : Value) (operation : String) (arguments : List (String × String))
  | returned (session : Value) (operation : String) (results : List (String × String))
  | linkedLogin (user stone : Value)
  | remoteLogin (user stone : Value) (service : String)
  | ignoredLimit (limit : Value)
  | cacheCleared (epoch : Nat)
  | notified (message : String)
  deriving DecidableEq, Repr

namespace LogLevel

def name : LogLevel → String
  | debug => "DEBUG"
  | warning => "WARNING"

end LogLevel

namespace LogEntry

def logger : LogEntry → String
  | query .. | result .. | error .. | called .. | returned .. => "gci"
  | linkedLogin .. | remoteLogin .. => "gemstone.session"
  | ignoredLimit _ => "settings"
  | cacheCleared _ => "tree.cache"
  | notified _ => "tree.provider"

def level : LogEntry → LogLevel
  | error .. | ignoredLimit _ | notified _ => .warning
  | _ => .debug

def listed (fields : List (String × String)) : String :=
  ", ".intercalate (fields.map fun f => f.1 ++ "=" ++ f.2)

def inSession (session : Value) (text : String) : String := "[" ++ session.shown ++ "] " ++ text

def message : LogEntry → String
  | query session label code => inSession session ("query " ++ label ++ ":\n" ++ code)
  | result session data =>
    inSession session ("result (" ++ Text.ofInt data.length ++ " chars):\n" ++ data)
  | error session message => inSession session ("error: " ++ message)
  | called session operation arguments =>
    inSession session ("call " ++ operation ++ "(" ++ listed arguments ++ ")")
  | returned session operation results =>
    inSession session ("return " ++ operation ++ " -> " ++ listed results)
  | linkedLogin user stone =>
    "Logging in linked session as " ++ user.shown ++ " stone_name=" ++ stone.shown
  | remoteLogin user stone service =>
    "Logging in rpc session as " ++ user.shown ++ " stone_name=" ++ stone.shown ++
      " netldi_task=" ++ service
  | ignoredLimit limit => "Ignoring invalid maximum environment " ++ limit.quoted ++ "; using 0."
  | cacheCleared epoch => "Browser cache cleared (epoch " ++ Text.ofInt epoch ++ ")"
  | notified message => message

end LogEntry

end ImageBrowser
