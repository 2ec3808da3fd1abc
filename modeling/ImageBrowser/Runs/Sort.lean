import ImageBrowser.Runs.Basic
import ImageBrowser.Runs.Merge

/-!
Sorting by merging runs. The border between two runs has a power, which is small near the middle of
the list, near its quarters and so on, and borders of greater power are merged away first. Which
items are compared is definite, so the result is too, even where some items come neither before nor
after others.
-/

namespace ImageBrowser.Runs

structure Pending (α : Type) where
  items : List α
  power : Nat
  deriving Repr

/-- The first binary place in which the middles of two neighbouring runs differ, each as a part of
the whole list. -/
def power (total start left right : Nat) : Nat :=
  let a := 2 * start + left
  let b := a + left + right
  ((List.range (total.log2 + 2)).find? fun n => (a <<< n) / total ≠ (b <<< n) / total).getD 0

/-- The length that a run is filled up to. From 64 items on it is such that the number of runs comes
close to a power of two, and not above it. -/
def fullLength (total : Nat) : Nat :=
  let n := total.log2 - 5
  (total + (1 <<< n) - 1) >>> n

variable {α ε : Type} (before : α → α → Except ε Bool)

def collapse (limit : Nat) : List (Pending α) → List α →
    StateT Nat (Except ε) (List (Pending α) × List α)
  | p :: waiting, last => do
    if limit < p.power then collapse limit waiting (← join before p.items last)
    else return (p :: waiting, last)
  | [], last => return ([], last)

/-- The last run comes first. A run between two is merged with the shorter one of them. -/
def finish : List (List α) → StateT Nat (Except ε) (List α)
  | c :: b :: a :: runs => do
    if a.length < c.length then finish (c :: (← join before a b) :: runs)
    else finish ((← join before b c) :: a :: runs)
  | [b, a] => join before a b
  | [a] => return a
  | [] => return []
termination_by runs => runs.length

def schedule (total : Nat) : List (Pending α) → List α → List (List α) →
    StateT Nat (Except ε) (List α)
  | waiting, last, run :: runs => do
    let start := (waiting.map (·.items.length)).sum
    let limit := power total start last.length run.length
    let (waiting, last) ← collapse before limit waiting last
    schedule total (⟨last, limit⟩ :: waiting) run runs
  | waiting, last, [] => finish before (last :: waiting.map (·.items))

def sort (items : List α) : Except ε (List α) := do
  match ← ofList before (fullLength items.length) items with
  | run :: runs => (schedule before items.length [] run runs).run' leastLeap
  | [] => return []

end ImageBrowser.Runs
