import ImageBrowser.Text.Numeral

/-!
Binary numbers of limited precision, and the shortest decimal text that reads back as one.

The text has the fewest digits of any decimal that rounds to the number, and of those decimals it
is the nearest. It is written with a point when its first digit stands between the fourth place
after the point and the sixteenth before it, else with an exponent.
-/

namespace ImageBrowser

/-- The number `± significand · 2 ^ exponent`. -/
structure Binary where
  negative : Bool
  significand : Nat
  exponent : Int
  deriving DecidableEq, Repr

namespace Binary

def twoTo (n : Nat) : Nat := Nat.pow 2 n

def tenTo (n : Nat) : Nat := Nat.pow 10 n

/-- The whole number nearest to `n / d / 2 ^ e`; of two equally near ones the even. -/
def roundTo (n d : Nat) (e : Int) : Nat :=
  let (n, d) := if 0 ≤ e then (n, d * twoTo e.toNat) else (n * twoTo (-e).toNat, d)
  let below := n / d
  let twice := 2 * (n % d)
  if twice < d || (twice = d && below % 2 = 0) then below else below + 1

def leastExponent : Int := -1074

def exponentFor (n d : Nat) : Int :=
  let guess : Int := Int.ofNat n.log2 - Int.ofNat d.log2 - 52
  let large := if 0 ≤ guess then d * twoTo (guess.toNat + 52) ≤ n
    else d * twoTo 52 ≤ n * twoTo (-guess).toNat
  max (if large then guess else guess - 1) leastExponent

def ofRatio (negative : Bool) (n d : Nat) : Binary :=
  if n = 0 then ⟨negative, 0, leastExponent⟩
  else
    let e := exponentFor n d
    let m := roundTo n d e
    if m = twoTo 53 then ⟨negative, twoTo 52, e + 1⟩ else ⟨negative, m, e⟩

def isZero (x : Binary) : Bool := x.significand = 0

def ratio (x : Binary) : Nat × Nat :=
  if 0 ≤ x.exponent then (x.significand * twoTo x.exponent.toNat, 1)
  else (x.significand, twoTo (-x.exponent).toNat)

def truncate (x : Binary) : Int :=
  let whole := Int.ofNat (x.ratio.1 / x.ratio.2)
  if x.negative then -whole else whole

def whole? (x : Binary) : Option Int :=
  if x.ratio.1 % x.ratio.2 = 0 then some x.truncate else none

def decimalRatio (digits : Nat) (power : Int) : Nat × Nat :=
  if 0 ≤ power then (digits * tenTo power.toNat, 1) else (digits, tenTo (-power).toNat)

def ofDecimal (negative : Bool) (digits : Nat) (power : Int) : Binary :=
  let (n, d) := decimalRatio digits power
  ofRatio negative n d

def lowerQuarters (x : Binary) : Nat :=
  if x.significand = twoTo 52 ∧ leastExponent < x.exponent then 1 else 2

/-- Whether a decimal lies among the reals that round to `x`; the two ends count when the
significand is even. -/
def readsBack (x : Binary) (digits : Nat) (power : Int) : Bool :=
  let (a, b) := decimalRatio digits power
  let (_, d) := x.ratio
  let unit := if 0 ≤ x.exponent then twoTo x.exponent.toNat else 1
  let low := (4 * x.significand - x.lowerQuarters) * unit * b
  let high := (4 * x.significand + 2) * unit * b
  let here := 4 * a * d
  if x.significand % 2 = 0 then low ≤ here && here ≤ high else low < here && here < high

def firstPlace (n d : Nat) : Int :=
  if d ≤ n then (Text.natDigits (n / d)).length else -Int.ofNat (leadingZeros n d 400)
where
  leadingZeros (n d : Nat) : Nat → Nat
    | 0 => 0
    | fuel + 1 => if d ≤ 10 * n then 0 else leadingZeros (10 * n) d fuel + 1

def gridDigits? (x : Binary) (power : Int) : Option Nat :=
  let (n, d) := x.ratio
  let (scaledN, scaledD) :=
    if 0 ≤ power then (n, d * tenTo power.toNat) else (n * tenTo (-power).toNat, d)
  let below := scaledN / scaledD
  let twice := 2 * (scaledN % scaledD)
  let nearer := if twice < scaledD || (twice = scaledD && below % 2 = 0) then below else below + 1
  let farther := if nearer = below then below + 1 else below
  if x.readsBack nearer power then some nearer
  else if x.readsBack farther power then some farther
  else none

/-- The shortest digits with the place of the first one; seventeen always suffice. -/
def shortest (x : Binary) : List Char × Int :=
  let place := firstPlace x.ratio.1 x.ratio.2
  let found := (List.range 17).findSome? fun k =>
    let power := place - Int.ofNat (k + 1)
    (x.gridDigits? power).map fun ds => (ds, power)
  match found with
  | none => (['0'], 1)
  | some (ds, power) =>
    let written := Text.natDigits ds
    ((written.reverse.dropWhile (· = '0')).reverse, written.length + power)

def zeros (n : Int) : List Char := List.replicate n.toNat '0'

def positional (digits : List Char) (place : Int) : List Char :=
  if place ≤ 0 then '0' :: '.' :: zeros (-place) ++ digits
  else if digits.length ≤ place then digits ++ zeros (place - digits.length) ++ ['.', '0']
  else digits.take place.toNat ++ '.' :: digits.drop place.toNat

def scientific (digits : List Char) (power : Int) : List Char :=
  let fraction := if digits.length = 1 then [] else '.' :: digits.drop 1
  let size := Text.natDigits power.natAbs
  digits.take 1 ++ fraction ++ ['e', if power < 0 then '-' else '+'] ++
    (if size.length < 2 then '0' :: size else size)

def shown (x : Binary) : String :=
  let (digits, place) := if x.isZero then (['0'], 1) else x.shortest
  let body := if -4 < place ∧ place ≤ 16 then positional digits place
    else scientific digits (place - 1)
  String.ofList (if x.negative then '-' :: body else body)

end Binary

end ImageBrowser
