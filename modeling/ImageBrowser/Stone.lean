import ImageBrowser.Fault

/-!
What can be asked of a stone over a connection, and what each request answers. How a stone answers
is not said here: every request may succeed with any answer of its type, or fail with any fault.
-/

namespace ImageBrowser

structure Connection where
  name : Value
  deriving DecidableEq, Repr

inductive Login
  | linked (user password stone : Value)
  | remote (user password stone : Value) (service : String)
  deriving DecidableEq, Repr

inductive Request
  | execute (source : Value)
  | fetch (object : RemoteObject)
  | resolve (name : Value)
  | create (content : Value)
  | toSymbol (object : RemoteObject)
  | perform (selector : Value) (receiver : RemoteObject) (arguments : List RemoteObject)
  | compile (source behavior symbolList category : RemoteObject) (environment : Value)
  | terminate (context : RemoteObject)
  | begin
  | commit
  | abort
  | logOut
  | stoneName
  | hostName
  | userId
  deriving DecidableEq, Repr

/-- Asking for plain data answers a value, resolving a name an object if there is one; what
controls the session answers nothing, and all else an object. -/
@[reducible] def Request.Answer : Request → Type
  | fetch _ => Value
  | resolve _ => Option RemoteObject
  | terminate _ | begin | commit | abort | logOut => Unit
  | _ => RemoteObject

end ImageBrowser
