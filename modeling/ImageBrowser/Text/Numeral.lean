import ImageBrowser.Text.Blank
import ImageBrowser.Text.DecimalDigit
import ImageBrowser.Text.Quoted
import ImageBrowser.Text.Split

/-!
Decimal numerals of whole numbers: how they are written, and which texts are read as one.

A numeral may have blanks around it and a sign in front; its digits may come from any script, and
a single underscore may stand between two of them. At most `maxDigits` digits are read. `ofInt` is
the decimal text of any number, and `isWritable` says which numbers are given one.
-/

namespace ImageBrowser.Text

def digitChar (d : Nat) : Char := Char.ofNat (0x30 + d)

def natDigits (n : Nat) : List Char :=
  if n < 10 then [digitChar n] else natDigits (n / 10) ++ [digitChar (n % 10)]

def intDigits (n : Int) : List Char :=
  if n < 0 then '-' :: natDigits n.natAbs else natDigits n.natAbs

def ofInt (n : Int) : String := String.ofList (intDigits n)

def maxDigits : Nat := 4300

def isWritable (n : Int) : Bool := n.natAbs < Nat.pow 10 maxDigits

inductive NumeralError
  | malformed (s : String)
  | tooLong (digits : Nat)
  deriving DecidableEq, Repr

/-- The text of a malformed numeral is shown up to the 200th character of its quoted form. -/
def NumeralError.message : NumeralError → String
  | .malformed s => "invalid literal for int() with base 10: " ++ upTo 200 (quoted s)
  | .tooLong n =>
    "Exceeds the limit (" ++ ofInt maxDigits ++
      " digits) for integer string conversion: value has " ++ ofInt n ++
      " digits; use sys.set_int_max_str_digits() to increase the limit"

def signed : List Char → Bool × List Char
  | '-' :: cs => (true, cs)
  | '+' :: cs => (false, cs)
  | cs => (false, cs)

def isDigitOrBar (c : Char) : Bool := c = '_' || (decimalDigit? c).isSome

def barsApart (run : List Char) : Bool :=
  (pieces '_' run).all fun p => !p.isEmpty

def natOfDigits (ds : List Nat) : Nat := ds.foldl (fun n d => 10 * n + d) 0

/-- A run of digits that is too long is reported even when other characters follow it. -/
def parseInt (s : String) : Except NumeralError Int :=
  let (negative, cs) := signed (dropEnds isNumeralBlank s.toList)
  let run := cs.takeWhile isDigitOrBar
  let digits := run.filterMap decimalDigit?
  if !barsApart run then .error (.malformed s)
  else if maxDigits < digits.length then .error (.tooLong digits.length)
  else if run.length < cs.length then .error (.malformed s)
  else .ok (if negative then -(natOfDigits digits : Int) else natOfDigits digits)

def parseInt? (s : String) : Option Int := (parseInt s).toOption

end ImageBrowser.Text
