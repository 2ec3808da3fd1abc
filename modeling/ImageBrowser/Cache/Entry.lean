import ImageBrowser.Cache.Basic
import ImageBrowser.Cache.ClassCategories
import ImageBrowser.Cache.Environments

/-! The two kinds of entry that the browser caches, and the keys they are cached under. -/

namespace ImageBrowser

/-- Keys hold the canonical form of the values that they are made of. -/
inductive CacheKey
  | classCategories (session index : Value)
  | environments (session index className limit : Value)
  deriving DecidableEq, Repr

inductive CacheEntry
  | classCategories (c : ClassCategories)
  | environments (e : Environments)
  deriving DecidableEq, Repr

namespace CacheKey

def ofDictionary (session index : Value) : Except Fault CacheKey := do
  return .classCategories (← session.asKey).canonical (← index.asKey).canonical

def ofClass (session index className limit : Value) : Except Fault CacheKey := do
  return .environments (← session.asKey).canonical (← index.asKey).canonical
    (← className.asKey).canonical (← limit.asKey).canonical

end CacheKey

namespace CacheEntry

def asClassCategories : CacheEntry → ClassCategories
  | .classCategories c => c
  | .environments _ => ⟨[], []⟩

def asEnvironments : CacheEntry → Environments
  | .classCategories _ => ⟨.empty⟩
  | .environments e => e

end CacheEntry

end ImageBrowser
