/-!
How many items at one end of a run pass a test, where none passes it after one that fails. The test
is put to few of them, to places that lie ever further apart and then to the middle of what is left
between two of them. Which items those are is definite, so the count is too, even where an item
passes after one that fails.
-/

namespace ImageBrowser.Runs

inductive End
  | front
  | back
  deriving DecidableEq, Repr

/-- The middle of the places from `low` up to `high`, counted from this end. Of two middle places it
is the one nearer to the back of the run. -/
def End.middle (e : End) (low high : Nat) : Nat :=
  match e with
  | front => (low + high) / 2
  | back => (low + high - 1) / 2

variable {α ε : Type} (passes : α → Except ε Bool)

def halve (e : End) (items : List α) (low high : Nat) : Except ε Nat :=
  if low < high then
    match items[e.middle low high]? with
    | some a => do
      if ← passes a then halve e items (e.middle low high + 1) high
      else halve e items low (e.middle low high)
    | none => .ok low
  else .ok low
termination_by high - low
decreasing_by all_goals cases e <;> simp only [End.middle] <;> omega

def stride (items : List α) (last next : Nat) : Except ε (Nat × Nat) :=
  if h : next < items.length then do
    if ← passes items[next] then stride items next (2 * next + 1) else return (last, next)
  else .ok (last, items.length)
termination_by items.length - next

def lead (e : End) : List α → Except ε Nat
  | [] => .ok 0
  | a :: rest => do
    if ← passes a then
      let (last, next) ← stride passes (a :: rest) 0 1
      halve passes e (a :: rest) (last + 1) next
    else return 0

end ImageBrowser.Runs
