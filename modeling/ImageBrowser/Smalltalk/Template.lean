import ImageBrowser.Text.Numeral

/-!
Source text put together from pieces. Text that a caller supplies enters as the content of a
literal, in which every quote is written twice, so that it cannot end its literal; only a source to
be executed enters as it is.
-/

namespace ImageBrowser.Smalltalk

/-- The caller's texts may be of any type, so that a template can be had without them. -/
inductive Piece (τ : Type)
  | code (source : String)
  | number (n : Int)
  | string (content : String)
  | text (content : τ)
  | symbol (content : τ)
  | spliced (source : τ)
  deriving DecidableEq, Repr

def doubledQuotes (cs : List Char) : List Char :=
  cs.flatMap fun c => if c = '\'' then ['\'', '\''] else [c]

def escape (s : String) : String := String.ofList (doubledQuotes s.toList)

def stringLiteral (s : String) : String := "'" ++ escape s ++ "'"

def symbolLiteral (s : String) : String := "#" ++ stringLiteral s

def Piece.render : Piece String → String
  | code source => source
  | number n => Text.ofInt n
  | string content => stringLiteral content
  | text content => stringLiteral content
  | symbol content => symbolLiteral content
  | spliced source => source

def render (template : List (Piece String)) : String := String.join (template.map Piece.render)

def ofLines {τ : Type} (lines : List (List (Piece τ))) : List (Piece τ) :=
  List.intercalate [.code "\n"] lines

theorem render_append (a b : List (Piece String)) : render (a ++ b) = render a ++ render b := by
  simp [render]

end ImageBrowser.Smalltalk
