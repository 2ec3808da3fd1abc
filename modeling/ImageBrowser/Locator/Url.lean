import ImageBrowser.Fault
import ImageBrowser.Locator.Address

/-! The parts of a locator's text: scheme, authority, path and query. -/

namespace ImageBrowser.Locator

open Text

structure Url where
  scheme : List Char
  authority : List Char
  path : List Char
  query : List Char
  deriving DecidableEq, Repr

/-- Control characters and spaces in front do not count, nor do tabs and line ends anywhere. -/
def cleaned (s : String) : List Char :=
  (s.toList.dropWhile fun c => c.toNat ≤ 0x20).filter fun c => c ≠ '\t' && c ≠ '\r' && c ≠ '\n'

def isSchemeChar (c : Char) : Bool := c.isAlphanum || c = '+' || c = '-' || c = '.'

def isScheme (cs : List Char) : Bool :=
  (cs.head?.map Char.isAlpha).getD false && cs.all isSchemeChar

def splitScheme (cs : List Char) : List Char × List Char :=
  match cut ':' cs with
  | (scheme, some rest) => if isScheme scheme then (scheme.map Char.toLower, rest) else ([], cs)
  | (_, none) => ([], cs)

def endsAuthority (c : Char) : Bool := c = '/' || c = '?' || c = '#'

def splitAuthority : List Char → List Char × List Char
  | '/' :: '/' :: cs =>
    (cs.takeWhile fun c => !endsAuthority c, cs.dropWhile fun c => !endsAuthority c)
  | cs => ([], cs)

def checkHost (host : List Char) : Except Fault Unit :=
  if host.head? = some 'v' then
    if isFutureAddress host then .ok () else .error (.invalid .futureAddress)
  else if isDottedAddress host then .error (.invalid .bracketedAddress)
  else if isColonAddress host then .ok ()
  else .error (.invalid (.notAddress (String.ofList host)))

/-- The address stands behind the last at sign. One in brackets has nothing before them, and after
them only what a colon begins. -/
def checkAddress (authority : List Char) : Except Fault Unit :=
  let address := (pieces '@' authority).getLastD []
  match cut '[' address with
  | (_, none) => checkHost (cut ':' address).1
  | (before, some rest) =>
    let (host, after) := cut ']' rest
    let after := after.getD []
    if before.isEmpty && (after.isEmpty || after.head? = some ':') then checkHost host
    else .error (.invalid .openBracket)

def checkBrackets (authority : List Char) : Except Fault Unit :=
  match authority.contains '[', authority.contains ']' with
  | false, false => .ok ()
  | true, true => checkAddress authority
  | _, _ => .error (.invalid .openBracket)

/-- Characters that stand for one of the marks that end or divide an authority. -/
def lookalikes : List Nat := [
  0x2047, 0x2048, 0x2049, 0x2100, 0x2101, 0x2105, 0x2106, 0x2A74, 0xFE13, 0xFE16, 0xFE55, 0xFE56,
  0xFE5F, 0xFE6B, 0xFF03, 0xFF0F, 0xFF1A, 0xFF1F, 0xFF20]

def checkMarks (authority : List Char) : Except Fault Unit :=
  if authority.any fun c => lookalikes.contains c.toNat then
    .error (.invalid (.unclearAuthority (String.ofList authority)))
  else .ok ()

def splitUrl (s : String) : Except Fault Url := do
  let (scheme, rest) := splitScheme (cleaned s)
  let (authority, rest) := splitAuthority rest
  checkBrackets authority
  let (path, query) := cut '?' (cut '#' rest).1
  checkMarks authority
  return ⟨scheme, authority, path, query.getD []⟩

/-- The name and value of a field of a query; a field without a value does not count. -/
def queryField? (field : List Char) : Option (List Char × List Char) :=
  match cut '=' field with
  | (name, some (c :: cs)) => some (queryDecodeChars name, queryDecodeChars (c :: cs))
  | _ => none

def queryFields (query : List Char) : List (List Char × List Char) :=
  (pieces '&' query).filterMap queryField?

end ImageBrowser.Locator
