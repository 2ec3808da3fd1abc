import ImageBrowser.Text.Utf8

/-! Percent coding of text: what is kept, what becomes the escaped bytes of UTF-8, and back. -/

namespace ImageBrowser.Text

def isUnreserved (c : Char) : Bool :=
  c.isAlphanum || c = '_' || c = '.' || c = '-' || c = '~'

def upperHex (d : Nat) : Char := if d < 10 then Char.ofNat (0x30 + d) else Char.ofNat (0x37 + d)

def escapeByte (b : Nat) : List Char := ['%', upperHex (b / 16), upperHex (b % 16)]

def escapeChar (c : Char) : List Char :=
  if isUnreserved c then [c] else (utf8Bytes c).flatMap escapeByte

def percentEncode (s : String) : String := String.ofList (s.toList.flatMap escapeChar)

def hexValue? (c : Char) : Option Nat :=
  let n := c.toNat
  if 0x30 ≤ n ∧ n ≤ 0x39 then some (n - 0x30)
  else if 0x41 ≤ n ∧ n ≤ 0x46 then some (n - 0x37)
  else if 0x61 ≤ n ∧ n ≤ 0x66 then some (n - 0x57)
  else none

/-- A percent sign that two hexadecimal digits do not follow stands for itself. -/
def unescapedBytes : List Char → List Nat
  | [] => []
  | '%' :: a :: b :: rest =>
    match hexValue? a, hexValue? b with
    | some x, some y => (16 * x + y) :: unescapedBytes rest
    | _, _ => 0x25 :: unescapedBytes (a :: b :: rest)
  | c :: rest => utf8Bytes c ++ unescapedBytes rest

def percentDecodeChars (cs : List Char) : List Char := decodeUtf8 (unescapedBytes cs)

/-- In the fields of a query a plus sign stands for a space. -/
def queryDecodeChars (cs : List Char) : List Char :=
  percentDecodeChars (cs.map fun c => if c = '+' then ' ' else c)

end ImageBrowser.Text
