import ImageBrowser.Locator.Basic

/-! How the rows of the tree look: label, icon, and for rows with text of their own a locator. -/

namespace ImageBrowser

structure TreeItem where
  label : Value
  icon : String
  collapsible : Bool
  contextValue : String
  locator : Option String := none
  tooltip : Option String := none
  deriving DecidableEq, Repr

namespace TreeItem

/-- Environments are told apart only where the limit allows more than one. -/
def sideLabel (path : SidePath) (limit : Value) : Except Fault String := do
  let side := Locator.sideName path.isMeta.isTruthy
  return if ← limit.asPositive then side ++ " " ++ path.environment.shown else side

def ofNode (n : Node) (limit : Value) : Except Fault TreeItem := do
  let collapsible := !n.isLeaf
  match n with
  | .dictionary path =>
    return ⟨path.name, "symbol-namespace", collapsible, "gemstoneDictionary", none, none⟩
  | .classCategory _ name =>
    return ⟨name, "symbol-folder", collapsible, "gemstoneClassCategory", none, none⟩
  | .cls path =>
    return ⟨path.className, "symbol-class", collapsible, "gemstoneClass", none, none⟩
  | .definition path =>
    return ⟨.text "definition", "symbol-structure", collapsible, "gemstoneDefinition",
      ← Locator.ofNode n, some (path.className.shown ++ " definition")⟩
  | .comment path =>
    return ⟨.text "comment", "comment", collapsible, "gemstoneComment", ← Locator.ofNode n,
      some (path.className.shown ++ " comment")⟩
  | .side path =>
    return ⟨.text (← sideLabel path limit),
      if path.isMeta.isTruthy then "symbol-interface" else "symbol-method", collapsible,
      "gemstoneSide", none, none⟩
  | .category _ name =>
    return ⟨name, "symbol-folder", collapsible, "gemstoneCategory", none, none⟩
  | .method path _ selector =>
    return ⟨selector, "symbol-method", collapsible, "gemstoneMethod", ← Locator.ofNode n,
      some (path.cls.className.shown ++ (if path.isMeta.isTruthy then " class" else "") ++ ">>#" ++
        selector.shown)⟩
  | .global path name =>
    return ⟨name, "symbol-variable", collapsible, "gemstoneGlobal", none,
      some (path.name.shown ++ " -> " ++ name.shown)⟩

def fieldsShown (limit : Value) : NodeKind → Except Fault (List String)
  | .dictionary | .classCategory | .cls | .category => .ok ["name"]
  | .definition | .comment => .ok ["session_id", "dictionary_name", "class_name"]
  | .side => return if ← limit.asPositive then ["is_meta", "environment_id"] else ["is_meta"]
  | .method =>
    .ok ["session_id", "dictionary_name", "class_name", "is_meta", "category", "selector",
      "environment_id"]
  | .global => .ok ["dictionary_name", "name"]

def missing (field : String) : Fault := .noSuchOperation "node" field

/-- The row of anything that has the attributes of a node which its row shows. It has children
unless it says otherwise. -/
def ofAttributes (attributes : List (String × Value)) (limit : Value) : Except Fault TreeItem := do
  let some kind := attributes.lookup "kind" | throw (missing "kind")
  let some known := kind.text?.bind NodeKind.ofTag? | throw (.invalid (.unknownKind kind))
  for name in ← fieldsShown limit known do
    if (attributes.lookup name).isNone then throw (missing name)
  let values := known.fieldNames.map fun name => (attributes.lookup name).getD .null
  match Node.ofValues? known values with
  | some n =>
    let item ← ofNode n limit
    return { item with collapsible := !((attributes.lookup "is_leaf").getD .null).isTruthy }
  | none => throw (.invalid (.unknownKind kind))

def textOrNull : Option String → Value
  | some s => .text s
  | none => .null

def toValue (i : TreeItem) : Value :=
  .object
    [("label", i.label), ("icon", .text i.icon), ("collapsible", .flag i.collapsible),
      ("context_value", .text i.contextValue), ("locator", textOrNull i.locator),
      ("tooltip", textOrNull i.tooltip)]

end TreeItem

end ImageBrowser
