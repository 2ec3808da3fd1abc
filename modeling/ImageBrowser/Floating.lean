import ImageBrowser.Binary

/-!
Floating point numbers: finite ones, the two infinities beyond them, and the one that is no number.
-/

namespace ImageBrowser

inductive Floating
  | finite (x : Binary)
  | infinite (negative : Bool)
  | undefined
  deriving DecidableEq, Repr

namespace Floating

def greatestExponent : Int := 971

/-- Decimals whose first digit stands before this place are larger than every finite number. -/
def placeBound : Int := 310

/-- Decimals whose first digit stands behind this place are nearer to zero than to another
number. -/
def leastPlace : Int := -330

def ofDecimal (negative : Bool) (digits : Nat) (power : Int) : Floating :=
  let place := (Text.natDigits digits).length + power
  if digits = 0 || place < leastPlace then finite ⟨negative, 0, Binary.leastExponent⟩
  else if placeBound < place then infinite negative
  else
    let x := Binary.ofDecimal negative digits power
    if x.exponent ≤ greatestExponent then finite x else infinite negative

def isZero : Floating → Bool
  | finite x => x.isZero
  | _ => false

def whole? : Floating → Option Int
  | finite x => x.whole?
  | _ => none

def shown : Floating → String
  | finite x => x.shown
  | infinite negative => if negative then "-inf" else "inf"
  | undefined => "nan"

end Floating

end ImageBrowser
