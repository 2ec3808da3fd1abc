/-!
The bytes of text. Decoding never fails: each longest piece that cannot begin or go on as a
character is read as one replacement character.
-/

namespace ImageBrowser.Text

def utf8Bytes (c : Char) : List Nat :=
  let n := c.toNat
  if n < 0x80 then [n]
  else if n < 0x800 then [0xC0 + n / 0x40, 0x80 + n % 0x40]
  else if n < 0x10000 then [0xE0 + n / 0x1000, 0x80 + n / 0x40 % 0x40, 0x80 + n % 0x40]
  else [0xF0 + n / 0x40000, 0x80 + n / 0x1000 % 0x40, 0x80 + n / 0x40 % 0x40, 0x80 + n % 0x40]

def replacementChar : Char := Char.ofNat 0xFFFD

def isTail (b : Nat) : Bool := 0x80 ≤ b && b < 0xC0

def isSecond (a b : Nat) : Bool :=
  isTail b && (a != 0xE0 || 0xA0 ≤ b) && (a != 0xED || b < 0xA0) && (a != 0xF0 || 0x90 ≤ b) &&
    (a != 0xF4 || b < 0x90)

def leadLength (a : Nat) : Nat :=
  if a < 0x80 then 1
  else if 0xC2 ≤ a && a < 0xE0 then 2
  else if 0xE0 ≤ a && a < 0xF0 then 3
  else if 0xF0 ≤ a && a < 0xF5 then 4
  else 0

/-- The first character and how many bytes it took beyond the lead byte. -/
def decodeHead (a : Nat) (rest : List Nat) : Char × Nat :=
  match leadLength a, rest with
  | 1, _ => (Char.ofNat a, 0)
  | 2, b :: _ =>
    if isTail b then (Char.ofNat ((a - 0xC0) * 0x40 + (b - 0x80)), 1) else (replacementChar, 0)
  | 3, b :: c :: _ =>
    if !isSecond a b then (replacementChar, 0)
    else if !isTail c then (replacementChar, 1)
    else (Char.ofNat ((a - 0xE0) * 0x1000 + (b - 0x80) * 0x40 + (c - 0x80)), 2)
  | 4, b :: c :: d :: _ =>
    if !isSecond a b then (replacementChar, 0)
    else if !isTail c then (replacementChar, 1)
    else if !isTail d then (replacementChar, 2)
    else
      (Char.ofNat ((a - 0xF0) * 0x40000 + (b - 0x80) * 0x1000 + (c - 0x80) * 0x40 + (d - 0x80)), 3)
  | n, b :: c :: _ =>
    (replacementChar, if n < 3 || !isSecond a b then 0 else if !isTail c then 1 else 2)
  | n, [b] => (replacementChar, if n < 3 || !isSecond a b then 0 else 1)
  | _, [] => (replacementChar, 0)

def decodeUtf8 : List Nat → List Char
  | [] => []
  | a :: rest =>
    let (c, taken) := decodeHead a rest
    c :: decodeUtf8 (rest.drop taken)
  termination_by bytes => bytes.length
  decreasing_by simp only [List.length_drop, List.length_cons]; omega

end ImageBrowser.Text
