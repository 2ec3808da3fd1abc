import ImageBrowser.Locator.Url
import ImageBrowser.Node

/-!
Locators: the address of a class definition, a class comment or a method, in one line of text.
Every part is percent coded, so that no part can be taken for another.
-/

namespace ImageBrowser

inductive Document
  | definition
  | comment
  | method (isMeta : Bool) (category selector : String) (environment : Int)
  deriving DecidableEq, Repr

structure Location where
  sessionId : String
  dictionaryName : String
  className : String
  document : Document
  deriving DecidableEq, Repr

namespace Locator

open Text

def scheme : String := "gemstone"

def sideName (isMeta : Bool) : String := if isMeta then "class" else "instance"

def encoded (v : Value) : String := percentEncode v.shown

def ofClass (path : ClassPath) (last : List String) : String :=
  scheme ++ "://" ++ "/".intercalate
    ([encoded path.dictionary.sessionId, encoded path.dictionary.name, encoded path.className] ++
      last)

/-- The environment is written only when it is not the first. -/
def ofMethod (path : SidePath) (category selector : Value) : Except Fault String := do
  let locator := ofClass path.cls
    [sideName path.isMeta.isTruthy, encoded category, encoded selector]
  if ← path.environment.asPositive then return locator ++ "?env=" ++ path.environment.shown
  return locator

def ofNode : Node → Except Fault (Option String)
  | .definition path => .ok (some (ofClass path [NodeKind.definition.tag]))
  | .comment path => .ok (some (ofClass path [NodeKind.comment.tag]))
  | .method path category selector => (ofMethod path category selector).map some
  | _ => .ok none

def isSideName (s : String) : Bool := s = sideName false || s = sideName true

def environmentIn (query : List Char) : Except Fault Int :=
  let value := ((queryFields query).lookup "env".toList).getD ['0']
  (parseInt (String.ofList value)).mapError fun e => .invalid (.numeral e)

def parse (s : String) : Except Fault Location := do
  let url ← splitUrl s
  if url.scheme ≠ scheme.toList then throw (.invalid (.notLocator s))
  let session := String.ofList (percentDecodeChars url.authority)
  let segments := (pieces '/' url.path).tail.map fun p => String.ofList (percentDecodeChars p)
  match segments with
  | [dictionary, cls, kind] =>
    if kind = NodeKind.definition.tag then return ⟨session, dictionary, cls, .definition⟩
    if kind = NodeKind.comment.tag then return ⟨session, dictionary, cls, .comment⟩
    throw (.invalid (.unknownLocator s))
  | [dictionary, cls, side, category, selector] =>
    if isSideName side then
      let environment ← environmentIn url.query
      return ⟨session, dictionary, cls,
        .method (side = sideName true) category selector environment⟩
    throw (.invalid (.unknownLocator s))
  | _ => throw (.invalid (.unknownLocator s))

/-- Values that are empty are read as empty text, and none is a locator. -/
def parseValue (v : Value) : Except Fault Location := do
  match ← v.asKey with
  | .text s => parse s
  | v =>
    if v.isTruthy then throw (.noSuchOperation v.typeName "decode")
    throw (.invalid (.notLocator v.shown))

end Locator

namespace Document

def kind : Document → String
  | definition => NodeKind.definition.tag
  | comment => NodeKind.comment.tag
  | method .. => NodeKind.method.tag

end Document

namespace Location

def toValue (l : Location) : Value :=
  let (isMeta, category, selector, environment) := match l.document with
    | .method isMeta category selector environment =>
      (isMeta, Value.text category, Value.text selector, environment)
    | _ => (false, .null, .null, 0)
  .object
    [("session_id", .text l.sessionId), ("dictionary_name", .text l.dictionaryName),
      ("class_name", .text l.className), ("document_kind", .text l.document.kind),
      ("is_meta", .flag isMeta), ("category", category), ("selector", selector),
      ("environment_id", .whole environment)]

end Location

end ImageBrowser
