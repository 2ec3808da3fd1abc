import ImageBrowser.Runs.Search

/-!
Two neighbouring runs made into one. The items are taken one by one as long as both runs have their
turns. Once one run keeps winning, they are taken in leaps: all items that one run has ahead of the
next item of the other one are counted at once.
-/

namespace ImageBrowser.Runs

/-- How the next items are taken. One by one, it tells how often each run has won in a row. -/
inductive Pace
  | single (leftWins rightWins : Nat)
  | leapLeft
  | leapRight (leftLead : Nat)
  deriving DecidableEq, Repr

/-- The items still to be taken, and those that have been, the last one first. The one by one pace
ends when a run has won `patience` times in a row. -/
structure Merging (α : Type) where
  left : List α
  right : List α
  merged : List α
  pace : Pace
  patience : Nat
  deriving Repr

def leastLeap : Nat := 7

namespace Merging

variable {α ε : Type}

def takeLeft (m : Merging α) (n : Nat) : Merging α :=
  { m with left := m.left.drop n, merged := (m.left.take n).reverseAux m.merged }

def takeRight (m : Merging α) (n : Nat) : Merging α :=
  { m with right := m.right.drop n, merged := (m.right.take n).reverseAux m.merged }

def isDone (m : Merging α) : End → Bool
  | .front => m.right.isEmpty || m.left.tail.isEmpty
  | .back => m.left.isEmpty || m.right.tail.isEmpty

def items (m : Merging α) : End → List α
  | .front => m.merged.reverse ++ m.right ++ m.left
  | .back => m.right.reverse ++ m.left.reverse ++ m.merged

variable (before : α → α → Except ε Bool) (e : End)

/-- Whether the right run wins. From the back, the item that comes later is taken first. -/
def rightWins (l r : α) : Except ε Bool := do
  return (← before r l) != (e = .back)

def stepSingle (m : Merging α) (won lost : Nat) : Except ε (Merging α) := do
  match m.left, m.right with
  | l :: _, r :: _ =>
    if ← rightWins before e l r then
      let pace := if m.patience ≤ lost + 1 then .leapLeft else .single 0 (lost + 1)
      return { m.takeRight 1 with pace }
    else
      let pace := if m.patience ≤ won + 1 then .leapLeft else .single (won + 1) 0
      return { m.takeLeft 1 with pace }
  | _, _ => return m

def stepLeft (m : Merging α) : Except ε (Merging α) := do
  match m.right with
  | r :: _ =>
    let n ← lead (fun l => return !(← rightWins before e l r)) e m.left
    return { (m.takeLeft n).takeRight 1 with pace := .leapRight n }
  | [] => return m

def stepRight (m : Merging α) (leftLead : Nat) : Except ε (Merging α) := do
  match m.left with
  | l :: _ =>
    let n ← lead (rightWins before e l) e m.right
    let m := (m.takeRight n).takeLeft 1
    if m.isDone e then return m
    else if leastLeap ≤ leftLead ∨ leastLeap ≤ n then
      return { m with pace := .leapLeft, patience := max 1 (m.patience - 1) }
    else return { m with pace := .single 0 0, patience := m.patience + 1 }
  | [] => return m

def step (m : Merging α) : Except ε (Merging α) :=
  match m.pace with
  | .single won lost => m.stepSingle before e won lost
  | .leapLeft => m.stepLeft before e
  | .leapRight n => m.stepRight before e n

/-- Each step takes an item, so as many steps as there are items are enough. -/
def run : Nat → Merging α → Except ε (Merging α)
  | 0, m => .ok m
  | n + 1, m => if m.isDone e then .ok m else do run n (← m.step before e)

end Merging

variable {α ε : Type} (before : α → α → Except ε Bool)

/-- For runs of which the right one begins before all of the left one, and the left one ends after
all of the right one. So the first item taken needs no comparison. -/
def merge (left right : List α) : StateT Nat (Except ε) (List α) := fun patience => do
  let (e, m) := if left.length ≤ right.length then
      (End.front, (Merging.mk left right [] (.single 0 0) patience).takeRight 1)
    else
      (End.back, (Merging.mk left.reverse right.reverse [] (.single 0 0) patience).takeLeft 1)
  let m ← m.run before e (left.length + right.length)
  return (m.items e, m.patience)

/-- What is in place already, at the front of the left run and at the back of the right one, is left
alone. -/
def join (left right : List α) : StateT Nat (Except ε) (List α) := do
  match right with
  | r :: _ =>
    let n ← lead (fun l => return !(← before r l)) .front left
    match (left.drop n).getLast? with
    | some l =>
      let k ← lead (fun r => return !(← before r l)) .back right.reverse
      let (right, behind) := right.splitAt (right.length - k)
      return left.take n ++ (← merge before (left.drop n) right) ++ behind
    | none => return left ++ right
  | [] => return left

end ImageBrowser.Runs
