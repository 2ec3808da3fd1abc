import ImageBrowser.Smalltalk.SnippetKind

/-! All Smalltalk text that can be had by name: the snippets, and the parts they are made of. -/

namespace ImageBrowser.Smalltalk

inductive Part
  | escaped
  | string
  | symbol
  | boolean
  | classReference
  | dictionaryReference
  | receiver
  | dictionaryLookup
  | methodRows
  deriving DecidableEq, Repr

namespace Part

def all : List Part := [
  escaped, string, symbol, boolean, classReference, dictionaryReference, receiver,
  dictionaryLookup, methodRows]

def name : Part → String
  | escaped => "escape_string"
  | string => "string_literal"
  | symbol => "symbol_literal"
  | boolean => "smalltalk_boolean"
  | classReference => "class_reference"
  | dictionaryReference => "dictionary_reference"
  | receiver => "receiver_expression"
  | dictionaryLookup => "class_dictionary_lookup_source"
  | methodRows => "method_serialization_source"

def ofName? (s : String) : Option Part := all.find? fun p => p.name = s

def text : Part → List Value → Except Fault String
  | escaped, [v] => do return escape (← v.asText)
  | string, [v] => do return stringLiteral (← v.asText)
  | symbol, [v] => do return symbolLiteral (← v.asText)
  | boolean, [v] => .ok (booleanText v.isTruthy)
  | classReference, [name] => do return render (namedObject (← name.asText))
  | dictionaryReference, [name] => do return render (namedObject (← name.asText))
  | receiver, [name, isMeta] => do
    return render (Smalltalk.receiver (← name.asText) isMeta.isTruthy)
  | dictionaryLookup, [] => .ok (render Smalltalk.dictionaryLookup)
  | methodRows, [environment] => do return render (Smalltalk.methodRows (← environment.asNumber))
  | _, _ => .error (.mismatch .wrongArguments)

end Part

def SnippetKind.sourceName (kind : SnippetKind) : String := kind.name ++ "_source"

def constants : List (String × String) :=
  [("METHOD_SERIALIZATION_LIMIT", "int"), ("TRUNCATION_MARKER", "str"), ("SYMBOL_LIST", "str")]

def call (name : String) (args : List Value) : Except Fault String := do
  if let some typeName := constants.lookup name then
    throw (.mismatch (.notCallable typeName))
  match Part.ofName? name, SnippetKind.all.find? fun kind => kind.sourceName = name with
  | some part, _ => part.text args
  | none, some kind => do return (← kind.snippet args).source
  | none, none => .error (.noSuchOperation "smalltalk" name)

end ImageBrowser.Smalltalk
