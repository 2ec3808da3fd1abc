import ImageBrowser.Records.Basic
import ImageBrowser.Table
import ImageBrowser.Value.Order

/-! The selectors of one class by side, method environment and category. -/

namespace ImageBrowser

structure CategoryListing where
  isMeta : Value
  environment : Value
  category : Value
  selectors : Value
  deriving DecidableEq, Repr

def EnvironmentCategory.listing (e : EnvironmentCategory) : CategoryListing :=
  ⟨.flag e.isMeta, .whole e.environment, .text e.category, Value.texts e.selectors⟩

/-- Each category goes under the canonical form of its side, environment and name. -/
structure Environments where
  categories : Table (Value × Value × Value) CategoryListing
  deriving DecidableEq, Repr

namespace Environments

def keyOf (isMeta environment category : Value) : Except Fault (Value × Value × Value) := do
  return ((← isMeta.asKey).canonical, (← environment.asKey).canonical, (← category.asKey).canonical)

def add (t : Table (Value × Value × Value) CategoryListing) (l : CategoryListing) :
    Except Fault (Table (Value × Value × Value) CategoryListing) := do
  let key ← keyOf l.isMeta l.environment l.category
  return t.insert key { (t.find? key).getD l with selectors := l.selectors }

def ofListings (listings : List CategoryListing) : Except Fault Environments := do
  return ⟨← listings.foldlM add .empty⟩

def categoryNames (e : Environments) (isMeta environment : Value) : Except Fault (List Value) :=
  Value.sorted
    ((e.categories.values.filter fun l =>
      l.isMeta.equals isMeta && l.environment.equals environment).map (·.category))

def selectorsIn (e : Environments) (isMeta environment category : Value) :
    Except Fault Value := do
  let key ← keyOf isMeta environment category
  return ((e.categories.find? key).map (·.selectors)).getD (.list [])

def selectorsWith (e : Environments) (isMeta environment category : Value) :
    Except Fault (List (Value × Value)) := do
  let selectors ← (← e.selectorsIn isMeta environment category).asItems
  return selectors.map fun selector => (selector, category)

def categorizedSelectors (e : Environments) (isMeta environment : Value) :
    Except Fault (List (Value × Value)) := do
  let categories ← e.categoryNames isMeta environment
  let pairs ← categories.mapM (e.selectorsWith isMeta environment)
  Value.sortedBy (fun p => .list [p.1, p.2]) pairs.flatten

def size (e : Environments) : Nat := e.categories.size

end Environments

end ImageBrowser
