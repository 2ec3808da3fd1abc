import ImageBrowser.Floating

/-! How large a number is, whichever way it is written. -/

namespace ImageBrowser

/-- A ratio, beyond all ratios on one side, or no size that another could be compared with. -/
inductive Magnitude
  | ratio (numerator : Int) (denominator : Nat)
  | infinite (negative : Bool)
  | undefined
  deriving DecidableEq, Repr

namespace Magnitude

def ofInt (n : Int) : Magnitude := ratio n 1

def ofFloating : Floating → Magnitude
  | .finite x => ratio (if x.negative then -x.ratio.1 else x.ratio.1) x.ratio.2
  | .infinite negative => infinite negative
  | .undefined => undefined

def isBelow : Magnitude → Magnitude → Bool
  | ratio a b, ratio c d => a * d < c * b
  | ratio _ _, infinite negative => !negative
  | infinite negative, ratio _ _ => negative
  | infinite a, infinite b => a && !b
  | _, _ => false

def isAtMost (a b : Magnitude) : Bool := a ≠ undefined && b ≠ undefined && !b.isBelow a

end Magnitude

end ImageBrowser
