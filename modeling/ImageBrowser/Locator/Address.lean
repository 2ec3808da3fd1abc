import ImageBrowser.Text.Percent
import ImageBrowser.Text.Split

/-! Numeric host addresses, as they may stand in the brackets of an authority. -/

namespace ImageBrowser.Locator

open Text

def octetValue (cs : List Char) : Nat := cs.foldl (fun n c => 10 * n + (c.toNat - 0x30)) 0

def isOctet (cs : List Char) : Bool :=
  !cs.isEmpty && cs.all Char.isDigit && cs.length ≤ 3 && (cs.length = 1 || cs.head? ≠ some '0') &&
    octetValue cs ≤ 255

def isDottedAddress (cs : List Char) : Bool :=
  (pieces '.' cs).length = 4 && (pieces '.' cs).all isOctet

def isHextet (cs : List Char) : Bool :=
  !cs.isEmpty && cs.length ≤ 4 && cs.all fun c => (hexValue? c).isSome

/-- A dotted address at the end counts as two groups. -/
def groupsOf (cs : List Char) : Option (List (List Char)) :=
  let parts := pieces ':' cs
  if parts.length < 3 then none
  else
    let last := parts.getLastD []
    if last.contains '.' then
      if isDottedAddress last then some (parts.dropLast ++ [['0'], ['0']]) else none
    else some parts

/-- Eight groups, or fewer where one run of zero groups is left out between two colons. -/
def areGroups (parts : List (List Char)) : Bool :=
  if 9 < parts.length then false
  else
    let inner := parts.tail.dropLast
    match inner.count [] with
    | 0 => parts.length = 8 && parts.all isHextet
    | 1 =>
      let skip := 1 + inner.idxOf []
      let before := parts.take skip
      let after := parts.drop (skip + 1)
      let high := if before.head? = some [] then before.tail else before
      let low := if after.getLast? = some [] then after.dropLast else after
      let cleanFront := before.head? ≠ some [] || high.isEmpty
      let cleanBack := after.getLast? ≠ some [] || low.isEmpty
      cleanFront && cleanBack && high.length + low.length ≤ 7 &&
        high.all isHextet && low.all isHextet
    | _ => false

/-- A zone may follow a percent sign. -/
def isColonAddress (cs : List Char) : Bool :=
  let (address, zone) := cut '%' cs
  let zoned := match zone with
    | none => true
    | some z => !z.isEmpty && !z.contains '%'
  zoned && ((groupsOf address).map areGroups).getD false

def isFutureAddress : List Char → Bool
  | 'v' :: cs =>
    let version := cs.takeWhile fun c => (hexValue? c).isSome
    let rest := cs.dropWhile fun c => (hexValue? c).isSome
    !version.isEmpty && rest.head? = some '.' && 2 ≤ rest.length && !rest.contains '\n'
  | _ => false

end ImageBrowser.Locator
