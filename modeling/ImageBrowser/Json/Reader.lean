import ImageBrowser.Table
import ImageBrowser.Text.Percent
import ImageBrowser.Value

/-!
Reading JSON text. A number is a fraction when it is written with a point or an exponent, else it
is whole; the infinities and what is no number stand there as words. Of fields of one name the last
counts, in the place of the first.
-/

namespace ImageBrowser.Json

def isSpace (c : Char) : Bool := c = ' ' || c = '\n' || c = '\r' || c = '\t'

def skipSpace (cs : List Char) : List Char := cs.dropWhile isSpace

def unescaped (c : Char) : Char :=
  match c with
  | 'n' => '\n'
  | 't' => '\t'
  | 'r' => '\r'
  | 'b' => Char.ofNat 0x08
  | 'f' => Char.ofNat 0x0C
  | c => c

def unitOf (digits : List Char) : Nat :=
  digits.foldl (fun n c => 16 * n + (Text.hexValue? c).getD 0) 0

def isHighHalf (n : Nat) : Bool := 0xD800 ≤ n && n < 0xDC00

def isLowHalf (n : Nat) : Bool := 0xDC00 ≤ n && n < 0xE000

def ofHalves (high low : Nat) : Char :=
  Char.ofNat (0x10000 + (high - 0xD800) * 0x400 + (low - 0xDC00))

/-- What stands before the closing quote; `acc` holds what was read, the last in front. -/
def readText (acc : List Char) : List Char → Option (String × List Char)
  | [] => none
  | '"' :: cs => some (String.ofList acc.reverse, cs)
  | '\\' :: 'u' :: a :: b :: c :: d :: '\\' :: 'u' :: e :: f :: g :: h :: cs =>
    let high := unitOf [a, b, c, d]
    let low := unitOf [e, f, g, h]
    if isHighHalf high && isLowHalf low then readText (ofHalves high low :: acc) cs
    else readText (Char.ofNat high :: acc) ('\\' :: 'u' :: e :: f :: g :: h :: cs)
  | '\\' :: 'u' :: a :: b :: c :: d :: cs => readText (Char.ofNat (unitOf [a, b, c, d]) :: acc) cs
  | '\\' :: c :: cs => readText (unescaped c :: acc) cs
  | c :: cs => readText (c :: acc) cs
  termination_by structural cs => cs

def isNumeralChar (c : Char) : Bool := c.isDigit || "+-.eE".toList.contains c

def isExponentMark (c : Char) : Bool := c = 'e' || c = 'E'

def digitsOf (cs : List Char) : Nat := cs.foldl (fun n c => 10 * n + (c.toNat - 0x30)) 0

def isDigits (cs : List Char) : Bool := !cs.isEmpty && cs.all Char.isDigit

def exponentOf? (cs : List Char) : Option Int :=
  let (negative, digits) := Text.signed cs
  if isDigits digits then some (if negative then -(digitsOf digits : Int) else digitsOf digits)
  else none

def fractionOf? (negative : Bool) (cs : List Char) : Option Value :=
  let (whole, fraction) := Text.cut '.' (cs.takeWhile fun c => !isExponentMark c)
  let exponent := match (cs.dropWhile fun c => !isExponentMark c).tail? with
    | none => some 0
    | some e => exponentOf? e
  let fraction := fraction.getD []
  if isDigits whole && fraction.all Char.isDigit then
    exponent.map fun e =>
      .fraction (Floating.ofDecimal negative (digitsOf (whole ++ fraction)) (e - fraction.length))
  else none

def numberOf? (cs : List Char) : Option Value :=
  let (negative, digits) := match cs with
    | '-' :: cs => (true, cs)
    | cs => (false, cs)
  if isDigits digits then
    some (.whole (if negative then -(digitsOf digits : Int) else digitsOf digits))
  else fractionOf? negative digits

mutual

/-- Reads one value and gives what follows it; each step into a value takes one unit of fuel. -/
def readValue : Nat → List Char → Option (Value × List Char)
  | 0, _ => none
  | fuel + 1, cs =>
    match skipSpace cs with
    | '"' :: cs => (readText [] cs).map fun r => (.text r.1, r.2)
    | '[' :: cs =>
      match skipSpace cs with
      | ']' :: cs => some (.list [], cs)
      | cs => readItems fuel [] cs
    | '\x7b' :: cs =>
      match skipSpace cs with
      | '\x7d' :: cs => some (.object [], cs)
      | cs => readFields fuel .empty cs
    | 't' :: 'r' :: 'u' :: 'e' :: cs => some (.flag true, cs)
    | 'f' :: 'a' :: 'l' :: 's' :: 'e' :: cs => some (.flag false, cs)
    | 'n' :: 'u' :: 'l' :: 'l' :: cs => some (.null, cs)
    | 'N' :: 'a' :: 'N' :: cs => some (.fraction .undefined, cs)
    | 'I' :: 'n' :: 'f' :: 'i' :: 'n' :: 'i' :: 't' :: 'y' :: cs =>
      some (.fraction (.infinite false), cs)
    | '-' :: 'I' :: 'n' :: 'f' :: 'i' :: 'n' :: 'i' :: 't' :: 'y' :: cs =>
      some (.fraction (.infinite true), cs)
    | cs => (numberOf? (cs.takeWhile isNumeralChar)).map fun v => (v, cs.dropWhile isNumeralChar)

def readItems : Nat → List Value → List Char → Option (Value × List Char)
  | 0, _, _ => none
  | fuel + 1, acc, cs => do
    let (v, cs) ← readValue fuel cs
    match skipSpace cs with
    | ',' :: cs => readItems fuel (v :: acc) cs
    | ']' :: cs => some (.list (v :: acc).reverse, cs)
    | _ => none

def readFields : Nat → Table String Value → List Char → Option (Value × List Char)
  | 0, _, _ => none
  | fuel + 1, acc, cs =>
    match skipSpace cs with
    | '"' :: cs => do
      let (name, cs) ← readText [] cs
      match skipSpace cs with
      | ':' :: cs => do
        let (v, cs) ← readValue fuel cs
        match skipSpace cs with
        | ',' :: cs => readFields fuel (acc.insert name v) cs
        | '\x7d' :: cs => some (.object (acc.insert name v).entries, cs)
        | _ => none
      | _ => none
    | _ => none

end

def read? (s : String) : Option Value :=
  match readValue (s.length + 1) s.toList with
  | some (v, cs) => if (skipSpace cs).isEmpty then some v else none
  | none => none

end ImageBrowser.Json
