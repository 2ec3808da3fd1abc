import ImageBrowser.Fault
import ImageBrowser.Runs.Sort
import ImageBrowser.Text.Split

/-!
Sorted lists of values. Numbers and truth values are ordered by size, texts by their characters,
and lists by the first items that differ. Other values have no order, nor have values of two kinds,
and a list of them cannot be sorted. Main statement: texts can always be sorted, and their order as
values is that of the texts.
-/

namespace ImageBrowser.Value

mutual

def before? : Value → Value → Option Bool
  | text a, text b => some (decide (a < b))
  | list as, list bs => itemsBefore? as bs
  | a, b =>
    match a.magnitude?, b.magnitude? with
    | some m, some n => some (m.isBelow n)
    | _, _ => none

def itemsBefore? : List Value → List Value → Option Bool
  | [], bs => some (!bs.isEmpty)
  | _ :: _, [] => some false
  | a :: as, b :: bs => if a.same b then itemsBefore? as bs else before? a b

end

def areInOrder : List Value → Bool
  | a :: b :: vs => before? b a = some false && areInOrder (b :: vs)
  | _ => true

/-- In the order of `key`, where equal ones stay in the order in which they came. -/
def arranged {α : Type} (key : α → Value) (items : List α) : List α :=
  items.mergeSort fun a b => before? (key b) (key a) ≠ some true

def isBefore (a b : Value) : Except Fault Bool :=
  match before? a b with
  | some r => .ok r
  | none => .error (.mismatch .incomparable)

mutual

/-- Whether there is something in a value that no number comes before or after. -/
def holdsUndefined : Value → Bool
  | fraction x => x = .undefined
  | list items => itemsHoldUndefined items
  | _ => false

def itemsHoldUndefined : List Value → Bool
  | [] => false
  | v :: vs => holdsUndefined v || itemsHoldUndefined vs

end

/-- Where the order has gaps, which items get compared decides about the result. -/
def sortedBy {α : Type} (key : α → Value) (items : List α) : Except Fault (List α) :=
  if items.any fun a => (key a).holdsUndefined then
    Runs.sort (fun a b => isBefore (key a) (key b)) items
  else
    let items := arranged key items
    if areInOrder (items.map key) then .ok items else .error (.mismatch .incomparable)

def sorted (vs : List Value) : Except Fault (List Value) := sortedBy id vs

def dropRepeats (vs : List Value) : List Value :=
  vs.foldr (fun v rest => v :: rest.dropWhile v.same) []

def distinct (vs : List Value) : List Value :=
  vs.foldl (fun seen v => if seen.any v.same then seen else seen ++ [v]) []

def sortedOnce (vs : List Value) : Except Fault (List Value) := do
  let keys ← vs.mapM asKey
  if keys.any holdsUndefined then sorted (distinct keys)
  else sorted (dropRepeats (arranged id keys))

theorem before?_text (a b : String) : before? (text a) (text b) = some (decide (a < b)) := by
  simp [before?]

theorem areInOrder_texts {names : List String} (h : names.Pairwise (· ≤ ·)) :
    areInOrder (names.map text) = true := by
  induction names with
  | nil => rfl
  | cons a names ih =>
    cases names with
    | nil => rfl
    | cons b names =>
      have hab : a ≤ b := (List.pairwise_cons.1 h).1 b List.mem_cons_self
      have tail := ih (List.pairwise_cons.1 h).2
      simp only [List.map_cons] at tail
      simp [areInOrder, before?_text, tail, String.not_lt.2 hab]

theorem arranged_texts (names : List String) :
    arranged id (names.map text) = (Text.sorted names).map text := by
  unfold arranged Text.sorted
  rw [List.map_mergeSort]
  intro a _ b _
  have h : a ≤ b ↔ before? (text b) (text a) ≠ some true := by
    rw [before?_text, ne_eq, Option.some_inj, decide_eq_true_iff, String.not_lt]
  exact decide_eq_decide.2 h

theorem sorted_texts (names : List String) :
    sorted (names.map text) = .ok ((Text.sorted names).map text) := by
  have h := areInOrder_texts (Text.pairwise_sorted names)
  simp [sorted, sortedBy, holdsUndefined, arranged_texts, h]

end ImageBrowser.Value
