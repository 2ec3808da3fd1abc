import ImageBrowser.Smalltalk.Template

/-!
Reading a source back: which of its characters are code, and which literals it holds. A quote
opens a literal, that of a symbol when a hash stands right before it. The literal ends at the first
quote that no other quote follows, and two quotes together in it stand for one.
-/

namespace ImageBrowser.Smalltalk

inductive Token
  | code (c : Char)
  | string (content : List Char)
  | symbol (content : List Char)
  deriving DecidableEq, Repr

def Token.literal (isSymbol : Bool) (content : List Char) : Token :=
  if isSymbol then symbol content else string content

inductive Place
  | code
  | literal (isSymbol : Bool) (content : List Char)
  deriving DecidableEq, Repr

/-- A source that ends inside a literal has no tokens. -/
def tokensFrom : Place → List Char → Option (List Token)
  | .code, [] => some []
  | .code, '#' :: '\'' :: cs => tokensFrom (.literal true []) cs
  | .code, '\'' :: cs => tokensFrom (.literal false []) cs
  | .code, c :: cs => (tokensFrom .code cs).map (.code c :: ·)
  | .literal _ _, [] => none
  | .literal isSymbol content, '\'' :: '\'' :: cs =>
    tokensFrom (.literal isSymbol (content ++ ['\''])) cs
  | .literal isSymbol content, '\'' :: cs =>
    (tokensFrom .code cs).map (.literal isSymbol content :: ·)
  | .literal isSymbol content, c :: cs => tokensFrom (.literal isSymbol (content ++ [c])) cs

def tokens? (source : String) : Option (List Token) := tokensFrom .code source.toList

theorem tokensFrom_doubledQuotes (isSymbol : Bool) (content text rest : List Char)
    (h : rest.head? ≠ some '\'') :
    tokensFrom (.literal isSymbol content) (doubledQuotes text ++ '\'' :: rest) =
      (tokensFrom .code rest).map (.literal isSymbol (content ++ text) :: ·) := by
  induction text generalizing content with
  | nil =>
    cases rest with
    | nil => simp [doubledQuotes, tokensFrom]
    | cons c cs =>
      have hc : c ≠ '\'' := by simpa using h
      rw [doubledQuotes, List.flatMap_nil, List.nil_append, List.append_nil,
        tokensFrom.eq_7 _ _ _ fun _ e => hc (List.cons.inj e).1]
  | cons c cs ih =>
    by_cases hc : c = '\''
    · subst hc
      have ih := ih (content ++ ['\''])
      simp only [doubledQuotes, List.flatMap_cons, if_true, List.cons_append, List.nil_append,
        List.append_assoc] at ih ⊢
      rw [tokensFrom]
      exact ih
    · have ih := ih (content ++ [c])
      simp only [doubledQuotes, List.flatMap_cons, hc, if_false, List.cons_append,
        List.nil_append, List.append_assoc] at ih ⊢
      rw [tokensFrom]
      · exact ih
      · exact fun _ e => absurd e hc
      · exact hc

end ImageBrowser.Smalltalk
