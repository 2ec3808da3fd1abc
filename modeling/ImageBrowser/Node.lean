import ImageBrowser.Records.Basic
import ImageBrowser.Table

/-!
The nodes of the browser's tree. A node holds no children, only the path that leads to them, so
that two nodes with the same path are the same node. Its path comes from a client and may hold any
values; what an operation needs of them, it asks for itself.
-/

namespace ImageBrowser

structure DictionaryPath where
  sessionId : Value
  index : Value
  name : Value
  deriving DecidableEq, Repr

structure ClassPath where
  dictionary : DictionaryPath
  className : Value
  deriving DecidableEq, Repr

structure SidePath where
  cls : ClassPath
  isMeta : Value
  environment : Value
  deriving DecidableEq, Repr

inductive Node
  | dictionary (path : DictionaryPath)
  | classCategory (path : DictionaryPath) (name : Value)
  | cls (path : ClassPath)
  | definition (path : ClassPath)
  | comment (path : ClassPath)
  | side (path : SidePath)
  | category (path : SidePath) (name : Value)
  | method (path : SidePath) (category selector : Value)
  | global (path : DictionaryPath) (name : Value)
  deriving DecidableEq, Repr

/-- The row that stands for all classes of a dictionary, or for all methods of a side. -/
def allRow : String := "** ALL **"

/-- The row that stands for the globals of a dictionary that are not classes. -/
def otherGlobalsRow : String := "** OTHER GLOBALS **"

inductive NodeKind
  | dictionary
  | classCategory
  | cls
  | definition
  | comment
  | side
  | category
  | method
  | global
  deriving DecidableEq, Repr

namespace NodeKind

def all : List NodeKind :=
  [dictionary, classCategory, cls, definition, comment, side, category, method, global]

def tag : NodeKind → String
  | dictionary => "dictionary"
  | classCategory => "class_category"
  | cls => "class"
  | definition => "definition"
  | comment => "comment"
  | side => "side"
  | category => "category"
  | method => "method"
  | global => "global"

def name : NodeKind → String
  | dictionary => "DictionaryNode"
  | classCategory => "ClassCategoryNode"
  | cls => "ClassNode"
  | definition => "DefinitionNode"
  | comment => "CommentNode"
  | side => "SideNode"
  | category => "CategoryNode"
  | method => "MethodNode"
  | global => "GlobalNode"

def sideFields : List String :=
  ["session_id", "dictionary_index", "dictionary_name", "class_name", "is_meta",
    "environment_id"]

def fieldNames : NodeKind → List String
  | dictionary => ["session_id", "dictionary_index", "name"]
  | classCategory | cls | global => ["session_id", "dictionary_index", "dictionary_name", "name"]
  | definition | comment =>
    ["session_id", "dictionary_index", "dictionary_name", "class_name"]
  | side => sideFields
  | category => sideFields ++ ["name"]
  | method => sideFields ++ ["category", "selector"]

def isLeaf : NodeKind → Bool
  | definition | comment | method | global => true
  | _ => false

def ofTag? (s : String) : Option NodeKind := all.find? fun k => k.tag = s

end NodeKind

namespace DictionaryPath

def values (p : DictionaryPath) : List Value := [p.sessionId, p.index, p.name]

end DictionaryPath

def ClassPath.values (p : ClassPath) : List Value := p.dictionary.values ++ [p.className]

def SidePath.values (p : SidePath) : List Value := p.cls.values ++ [p.isMeta, p.environment]

namespace Node

def kind : Node → NodeKind
  | dictionary _ => .dictionary
  | classCategory _ _ => .classCategory
  | cls _ => .cls
  | definition _ => .definition
  | comment _ => .comment
  | side _ => .side
  | category _ _ => .category
  | method _ _ _ => .method
  | global _ _ => .global

/-- The values of a node's fields, in the order of `NodeKind.fieldNames`. -/
def values : Node → List Value
  | dictionary p => p.values
  | classCategory p n => p.values ++ [n]
  | cls p => p.values
  | definition p => p.values
  | comment p => p.values
  | side p => p.values
  | category p n => p.values ++ [n]
  | method p c s => p.values ++ [c, s]
  | global p n => p.values ++ [n]

def isLeaf (n : Node) : Bool := n.kind.isLeaf

def fields (n : Node) : List (String × Value) := n.kind.fieldNames.zip n.values

def toFields (n : Node) : List (String × Value) := ("kind", .text n.kind.tag) :: n.fields

def toValue (n : Node) : Value := .object n.toFields

def describe (n : Node) : String := describeFields n.kind.name n.fields

def same (a b : Node) : Bool := a.kind = b.kind && (Value.list a.values).same (.list b.values)

def isKey (n : Node) : Bool := n.values.all Value.isKey

def ofValues? : NodeKind → List Value → Option Node
  | .dictionary, [s, i, n] => some (.dictionary ⟨s, i, n⟩)
  | .classCategory, [s, i, d, n] => some (.classCategory ⟨s, i, d⟩ n)
  | .cls, [s, i, d, c] => some (.cls ⟨⟨s, i, d⟩, c⟩)
  | .definition, [s, i, d, c] => some (.definition ⟨⟨s, i, d⟩, c⟩)
  | .comment, [s, i, d, c] => some (.comment ⟨⟨s, i, d⟩, c⟩)
  | .side, [s, i, d, c, m, e] => some (.side ⟨⟨⟨s, i, d⟩, c⟩, m, e⟩)
  | .category, [s, i, d, c, m, e, n] => some (.category ⟨⟨⟨s, i, d⟩, c⟩, m, e⟩ n)
  | .method, [s, i, d, c, m, e, g, n] => some (.method ⟨⟨⟨s, i, d⟩, c⟩, m, e⟩ g n)
  | .global, [s, i, d, n] => some (.global ⟨s, i, d⟩ n)
  | _, _ => none

def kindOf (v : Value) : Except Fault NodeKind := do
  let key ← v.asKey
  match key.text?.bind NodeKind.ofTag? with
  | some k => .ok k
  | none => .error (.invalid (.unknownKind v))

/-- Reads back what `toFields` wrote, in any order: the kind has to be known, and the other fields
have to be those of the kind, no more and no fewer. -/
def ofFields (fields : List (String × Value)) : Except Fault Node := do
  let kind ← kindOf ((fields.lookup "kind").getD .null)
  let rest := fields.filter fun f => f.1 ≠ "kind"
  let wrong := Fault.mismatch (.wrongFields kind.name kind.fieldNames)
  if rest.any fun f => f.1 = ownFieldName then throw (.mismatch .ownField)
  if rest.all fun f => kind.fieldNames.contains f.1 then
    match (kind.fieldNames.mapM fun name => rest.lookup name).bind (ofValues? kind) with
    | some n => .ok n
    | none => .error wrong
  else .error wrong

def pairOf (index : Nat) (v : Value) : Except Fault (Value × Value) :=
  let pair (items : List Value) : Except Fault (Value × Value) :=
    match items with
    | [k, x] => .ok (k, x)
    | _ => .error (.invalid (.notPair index items.length))
  match v.items? with
  | some items => pair items
  | none => .error (.mismatch (.notSequence index))

def pairsOf : Nat → List Value → Except Fault (List (Value × Value))
  | _, [] => .ok []
  | index, v :: vs => do
    let (k, x) ← pairOf index v
    let k ← k.asKey
    return (k, x) :: (← pairsOf (index + 1) vs)

/-- A later pair with the same name takes the place of an earlier one. -/
def fieldsOfPairs (pairs : List (Value × Value)) : Table Value Value :=
  pairs.foldl (fun t p => t.insert p.1 p.2) .empty

def ofValue (v : Value) : Except Fault Node := do
  match v with
  | .object fields => ofFields fields
  | v => fromItems (← v.asItems)
where
  fromItems (items : List Value) : Except Fault Node := do
    let table := fieldsOfPairs (← pairsOf 0 items)
    let _ ← kindOf ((table.find? (.text "kind")).getD .null)
    match table.entries.mapM fun e => e.1.text?.map fun k => (k, e.2) with
    | some fields => ofFields fields
    | none => .error (.mismatch .fieldNames)

end Node

end ImageBrowser
