import ImageBrowser.Records.Basic
import ImageBrowser.Value.Order

/-! The classes of one dictionary by class category, and its other globals. -/

namespace ImageBrowser

structure Binding where
  isClass : Value
  category : Value
  name : Value
  deriving DecidableEq, Repr

def DictionaryEntry.binding (e : DictionaryEntry) : Binding :=
  ⟨.flag e.isClass, .text e.category, .text e.name⟩

def Binding.heading (b : Binding) : Value :=
  if b.category.isTruthy then b.category else .text ""

/-- Each category with the sorted names of its classes, and the sorted names of all else. -/
structure ClassCategories where
  categories : List (Value × List Value)
  globals : List Value
  deriving DecidableEq, Repr

namespace ClassCategories

def ofHeading (classes : List Binding) (heading : Value) : Except Fault (Value × List Value) := do
  let names := (classes.filter fun b => b.heading.same heading).map (·.name)
  return (heading, ← Value.sorted names)

def ofBindings (bindings : List Binding) : Except Fault ClassCategories := do
  let classes := bindings.filter (·.isClass.isTruthy)
  let headings ← classes.mapM (·.heading.asKey)
  let categories ← (Value.distinct headings).mapM (ofHeading classes)
  let globals ← Value.sorted ((bindings.filter fun b => !b.isClass.isTruthy).map (·.name))
  return ⟨categories, globals⟩

def categoryNames (c : ClassCategories) : Except Fault (List Value) :=
  Value.sorted (c.categories.map (·.1))

def allClassNames (c : ClassCategories) : Except Fault (List Value) :=
  Value.sortedOnce (c.categories.flatMap (·.2))

def classNamesIn (c : ClassCategories) (category : Value) : Except Fault (List Value) := do
  let category ← category.asKey
  return ((c.categories.find? fun p => p.1.same category).map (·.2)).getD []

end ClassCategories

end ImageBrowser
