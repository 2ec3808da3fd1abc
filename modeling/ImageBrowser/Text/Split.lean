/-! Cutting text at a separator, and the parts of rows and lines. -/

namespace ImageBrowser.Text

/-- The pieces between the places where `sep` stands: one more than there are such places. -/
def pieces (sep : Char) (cs : List Char) : List (List Char) :=
  cs.foldr
    (fun c ps => if c = sep then [] :: ps else (c :: ps.headD []) :: ps.tail)
    [[]]

def split (sep : Char) (s : String) : List String := (pieces sep s.toList).map String.ofList

def cut (sep : Char) (cs : List Char) : List Char × Option (List Char) :=
  (cs.takeWhile (· ≠ sep), (cs.dropWhile (· ≠ sep)).tail?)

def nonempty (parts : List String) : List String := parts.filter (· ≠ "")

def lines (s : String) : List String := nonempty (split '\n' s)

def fields (line : String) : List String := split '\t' line

/-- At most `limit` characters from the front; a negative limit takes that many off the end. -/
def upTo (limit : Int) (s : String) : String :=
  String.ofList (s.toList.take (if 0 ≤ limit then limit.toNat else s.length - (-limit).toNat))

def sorted (names : List String) : List String := names.mergeSort fun a b => decide (a ≤ b)

/-- Of equal neighbours only the last is kept. -/
def dropRepeats (names : List String) : List String :=
  names.foldr (fun a r => if r.head? = some a then r else a :: r) []

def sortedOnce (names : List String) : List String := dropRepeats (sorted names)

theorem pairwise_sorted (names : List String) : (sorted names).Pairwise (· ≤ ·) := by
  let inOrder (a b : String) : Bool := decide (a ≤ b)
  have trans (a b c : String) : inOrder a b → inOrder b c → inOrder a c := by
    simpa [inOrder] using String.le_trans
  have total (a b : String) : inOrder a b || inOrder b a := by
    simpa [inOrder] using String.le_total a b
  have h := List.pairwise_mergeSort trans total names
  simpa [sorted, inOrder] using h

@[simp] theorem pieces_nil (sep : Char) : pieces sep [] = [[]] := rfl

theorem pieces_cons (sep c : Char) (cs : List Char) :
    pieces sep (c :: cs) =
      if c = sep then [] :: pieces sep cs
      else (c :: (pieces sep cs).headD []) :: (pieces sep cs).tail := rfl

theorem pieces_ne_nil (sep : Char) (cs : List Char) : pieces sep cs ≠ [] := by
  cases cs with
  | nil => simp
  | cons c cs =>
    rw [pieces_cons]
    split <;> simp

end ImageBrowser.Text
