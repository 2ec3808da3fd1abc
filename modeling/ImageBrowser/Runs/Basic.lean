import ImageBrowser.Runs.Search

/-!
The runs that a list consists of. In a falling run each item comes before the one in front of it,
and in any other run none does. A falling run is turned round, and a short one takes in the items
that follow it, each at its place.
-/

namespace ImageBrowser.Runs

variable {α ε : Type} (before : α → α → Except ε Bool)

def further (falls : Bool) (last : α) : List α → Except ε Nat
  | [] => .ok 0
  | a :: rest => do
    if (← before a last) = falls then return (← further falls a rest) + 1 else return 0

def insert (run : List α) (a : α) : Except ε (List α) := do
  let n ← halve (fun b => return !(← before a b)) .front run 0 run.length
  return run.take n ++ a :: run.drop n

def ofList (least : Nat) : List α → Except ε (List (List α))
  | a :: b :: rest => do
    let falls ← before b a
    let n ← further before falls b rest
    let run := a :: b :: rest.take n
    let run := if falls then run.reverse else run
    let run ← ((rest.drop n).take (least - (n + 2))).foldlM (insert before) run
    return run :: (← ofList least (rest.drop (max n (least - 2))))
  | [] => .ok []
  | [a] => .ok [[a]]
termination_by items => items.length
decreasing_by simp; omega

end ImageBrowser.Runs
