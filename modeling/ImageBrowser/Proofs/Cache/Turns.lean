import ImageBrowser.Proofs.Cache.Operations
import ImageBrowser.Proofs.Cache.Requests

/-!
What one action of a caller can do to the cache, and how far the caller has come with its request
then. There is nothing else to tell apart: whatever holds of the cache in every interleaving is
shown turn by turn.
-/

namespace ImageBrowser

/-- From a cache and a stage, the action and its reply lead to a cache and a stage. -/
inductive Turn (c : Cache CacheKey CacheEntry) :
    Stage → (a : Action) → a.Reply → Cache CacheKey CacheEntry → Stage → Prop
  | found {k : CacheKey} {e : CacheEntry} (stored : c.stored.find? k = some e) :
      Turn c .idle (.step (.request k)) (.found e) c (.answered k (.ok e))
  | joined {k : CacheKey} {f : Flight} (inFlight : c.inFlight.find? k = some f) :
      Turn c .idle (.step (.request k)) (.joined f.ticket) c (.waiting k f.ticket)
  | owned {k : CacheKey} (unstored : c.stored.find? k = none) (free : c.inFlight.find? k = none) :
      Turn c .idle (.step (.request k)) (.owned c.nextTicket) (c.register k)
        (.fetching k c.nextTicket)
  | settled (k : CacheKey) (ticket : Nat) (outcome : Except Fault CacheEntry) :
      Turn c (.fetching k ticket) (.step (.settle k ticket outcome)) () (c.settle k ticket outcome)
        (.settled k ticket outcome)
  | published (k : CacheKey) (ticket : Nat) (outcome : Except Fault CacheEntry) :
      Turn c (.settled k ticket outcome) (.step (.publish ticket outcome)) ()
        (c.publish ticket outcome) (.answered k outcome)
  | waited {k : CacheKey} {ticket : Nat} {outcome : Except Fault CacheEntry}
      (published : c.outcomes.find? ticket = some outcome) :
      Turn c (.waiting k ticket) (.wait ticket) outcome c (.answered k outcome)
  | cleared (stage : Stage) : Turn c stage (.step .clearCache) () c.clear stage
  | other {stage : Stage} {a : Action} {r : a.Reply} (apart : ¬ a.isRequest)
      (uncleared : a ≠ .step .clearCache) : Turn c stage a r c stage

theorem Turn.lookup {c c' : Cache CacheKey CacheEntry} {stage next : Stage} {k : CacheKey}
    {found : Lookup CacheEntry} (turn : Turn c stage (.step (.request k)) found c' next) :
    match found with
    | .found e => c.stored.find? k = some e
    | .joined ticket => ∃ f, c.inFlight.find? k = some f ∧ f.ticket = ticket
    | .owned _ => c.stored.find? k = none ∧ c.inFlight.find? k = none := by
  cases turn with
  | found stored => exact stored
  | joined inFlight => exact ⟨_, inFlight, rfl⟩
  | owned unstored free => exact ⟨unstored, free⟩
  | other apart => exact absurd rfl apart

theorem Turn.outcome {c c' : Cache CacheKey CacheEntry} {stage next : Stage} {ticket : Nat}
    {outcome : Except Fault CacheEntry} (turn : Turn c stage (.wait ticket) outcome c' next) :
    c.outcomes.find? ticket = some outcome := by
  cases turn with
  | waited published => exact published
  | other apart => exact absurd rfl apart

theorem cache_unchanged {w v : World} {a : Action} {r : a.Reply} (answers : Answers w a r v)
    (other : ¬ a.isRequest) (uncleared : a ≠ .step .clearCache) : v.cache = w.cache := by
  cases answers with
  | step t => cases t <;> first | exact absurd rfl other | exact absurd rfl uncleared | rfl
  | _ => rfl

theorem turn_of_request {c : Cache CacheKey CacheEntry} (k : CacheKey) :
    Turn c .idle (.step (.request k)) (c.request k).1 (c.request k).2
      (.ofLookup k (c.request k).1) := by
  obtain ⟨e, stored, same⟩ | ⟨f, inFlight, same⟩ | ⟨unstored, free, same⟩ := c.request_cases k
  all_goals rw [same]
  · exact .found stored
  · exact .joined inFlight
  · exact .owned unstored free

theorem turn_of_answers {w v : World} {stage : Stage} {a : Action} {r : a.Reply}
    (allowed : stage.allows a) (answers : Answers w a r v) :
    Turn w.cache stage a r v.cache (stage.after a r) := by
  by_cases request : a.isRequest
  · cases answers with
    | step t =>
      cases t with
      | request k =>
        obtain rfl : stage = .idle := allowed
        exact turn_of_request k
      | settle k ticket outcome =>
        obtain rfl : stage = .fetching k ticket := allowed
        exact .settled k ticket outcome
      | publish ticket outcome =>
        obtain ⟨k, rfl⟩ := allowed
        exact .published k ticket outcome
      | _ => simp [Action.isRequest] at request
    | wait published =>
      obtain ⟨k, rfl⟩ := allowed
      exact .waited published
    | _ => simp [Action.isRequest] at request
  · rw [Stage.after_of_not_isRequest request]
    by_cases clears : a = .step .clearCache
    · subst clears
      cases answers
      exact .cleared stage
    · rw [cache_unchanged answers request clears]
      exact .other request clears

end ImageBrowser
