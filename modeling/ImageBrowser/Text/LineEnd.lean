/-! The lines of a text, whatever ends them. -/

namespace ImageBrowser.Text

/-- Line feed and tabulation, form feed, carriage return, the separators of files, groups and
records, and the next line, line and paragraph separators. -/
def endsLine (c : Char) : Bool :=
  let n := c.toNat
  (0x0A ≤ n && n ≤ 0x0D) || (0x1C ≤ n && n ≤ 0x1E) || n == 0x85 || n == 0x2028 || n == 0x2029

/-- A carriage return and the line feed behind it are one end. What follows the last end is a line
only if there is anything. -/
def endedLines : List Char → List (List Char)
  | [] => []
  | '\r' :: '\n' :: cs => [] :: endedLines cs
  | c :: cs =>
    if endsLine c then [] :: endedLines cs
    else match endedLines cs with
      | [] => [[c]]
      | line :: rest => (c :: line) :: rest

def lastLine (s : String) : String := String.ofList ((endedLines s.toList).getLastD [])

end ImageBrowser.Text
