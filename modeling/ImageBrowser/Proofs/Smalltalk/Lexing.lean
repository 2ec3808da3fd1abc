import ImageBrowser.Proofs.Text.Numerals
import ImageBrowser.Smalltalk.Lexer

/-!
Reading back what templates render to. Where no literal of a template touches a quote, its source
is read as the tokens of its pieces one after another, whatever texts the literals hold.
-/

namespace ImageBrowser.Smalltalk

variable {τ : Type}

/-- Code that opens no literal, and that makes no symbol of one that follows. -/
def isPlain (cs : List Char) : Bool := cs.all fun c => c != '\'' && c != '#'

/-- Nothing follows, or something that does not begin with a quote. -/
def startsApart : List (Piece τ) → Bool
  | [] => true
  | .code s :: _ => s != ""
  | .number _ :: _ | .symbol _ :: _ => true
  | _ => false

/-- A template of plain code and numbers, and of literals with no quote right behind them. It
splices nothing. -/
inductive Apart : List (Piece τ) → Prop
  | nil : Apart []
  | code {cs : List Char} {ps : List (Piece τ)} (plain : isPlain cs = true) (rest : Apart ps) :
      Apart (.code (String.ofList cs) :: ps)
  | number (n : Int) {ps : List (Piece τ)} (rest : Apart ps) : Apart (.number n :: ps)
  | string (content : String) {ps : List (Piece τ)} (next : startsApart ps = true)
      (rest : Apart ps) : Apart (.string content :: ps)
  | text (content : τ) {ps : List (Piece τ)} (next : startsApart ps = true) (rest : Apart ps) :
      Apart (.text content :: ps)
  | symbol (content : τ) {ps : List (Piece τ)} (next : startsApart ps = true) (rest : Apart ps) :
      Apart (.symbol content :: ps)

def Piece.map {υ : Type} (f : τ → υ) : Piece τ → Piece υ
  | code source => code source
  | number n => number n
  | string content => string content
  | text content => text (f content)
  | symbol content => symbol (f content)
  | spliced source => spliced (f source)

theorem startsApart_map {υ : Type} (f : τ → υ) (ps : List (Piece τ)) :
    startsApart (ps.map (Piece.map f)) = startsApart ps := by
  cases ps with
  | nil => rfl
  | cons p ps => cases p <;> rfl

theorem Apart.map {υ : Type} (f : τ → υ) {ps : List (Piece τ)} (h : Apart ps) :
    Apart (ps.map (Piece.map f)) := by
  induction h with
  | nil => exact .nil
  | code plain _ ih => exact .code plain ih
  | number n _ ih => exact .number n ih
  | string content next _ ih => exact .string content (by rwa [startsApart_map]) ih
  | text content next _ ih => exact .text (f content) (by rwa [startsApart_map]) ih
  | symbol content next _ ih => exact .symbol (f content) (by rwa [startsApart_map]) ih

/-- What a piece is read as. A spliced source has no tokens of its own. -/
def Piece.tokens : Piece String → List Token
  | code source => source.toList.map .code
  | number n => (Text.intDigits n).map .code
  | string content => [.string content.toList]
  | text content => [.string content.toList]
  | symbol content => [.symbol content.toList]
  | spliced _ => []

theorem render_cons (p : Piece String) (ps : List (Piece String)) :
    render (p :: ps) = p.render ++ render ps := by
  simp [render]

theorem tokensFrom_code {c : Char} (quote : c ≠ '\'') (hash : c ≠ '#') (cs : List Char) :
    tokensFrom .code (c :: cs) = (tokensFrom .code cs).map (.code c :: ·) := by
  rw [tokensFrom]
  · exact fun _ e => absurd e hash
  · exact quote

theorem tokensFrom_plain {cs : List Char} (plain : isPlain cs = true) (rest : List Char) :
    tokensFrom .code (cs ++ rest) = (tokensFrom .code rest).map (cs.map Token.code ++ ·) := by
  induction cs with
  | nil => simp
  | cons c cs ih =>
    simp only [isPlain, List.all_cons, Bool.and_eq_true, bne_iff_ne] at plain
    obtain ⟨⟨quote, hash⟩, plain⟩ := plain
    rw [List.cons_append, tokensFrom_code quote hash, ih plain, Option.map_map]
    rfl

theorem toList_stringLiteral (s : String) :
    (stringLiteral s).toList = '\'' :: (doubledQuotes s.toList ++ ['\'']) := by
  simp [stringLiteral, escape]

theorem tokensFrom_stringLiteral (s : String) {rest : List Char} (h : rest.head? ≠ some '\'') :
    tokensFrom .code ((stringLiteral s).toList ++ rest) =
      (tokensFrom .code rest).map (.string s.toList :: ·) := by
  rw [toList_stringLiteral, List.cons_append, List.append_assoc, tokensFrom]
  exact tokensFrom_doubledQuotes false [] s.toList rest h

theorem tokensFrom_symbolLiteral (s : String) {rest : List Char} (h : rest.head? ≠ some '\'') :
    tokensFrom .code ((symbolLiteral s).toList ++ rest) =
      (tokensFrom .code rest).map (.symbol s.toList :: ·) := by
  have hash : (symbolLiteral s).toList = '#' :: (stringLiteral s).toList := by
    simp [symbolLiteral]
  rw [hash, toList_stringLiteral, List.cons_append, List.cons_append, List.append_assoc,
    tokensFrom]
  exact tokensFrom_doubledQuotes true [] s.toList rest h

theorem isPlain_append (as bs : List Char) : isPlain (as ++ bs) = (isPlain as && isPlain bs) :=
  List.all_append

theorem isPlain_digitChar {d : Nat} (h : d < 10) : isPlain [Text.digitChar d] = true := by
  revert d
  decide

theorem isPlain_natDigits (n : Nat) : isPlain (Text.natDigits n) = true := by
  induction n using Text.natDigits.induct with
  | case1 n small =>
    rw [Text.natDigits, if_pos small]
    exact isPlain_digitChar small
  | case2 n large ih =>
    rw [Text.natDigits, if_neg large, isPlain_append, ih]
    exact isPlain_digitChar (Nat.mod_lt n (by omega))

theorem isPlain_intDigits (n : Int) : isPlain (Text.intDigits n) = true := by
  have plain := isPlain_natDigits n.natAbs
  rw [Text.intDigits]
  split
  · simpa [isPlain] using plain
  · exact plain

theorem head?_append_of_plain {cs : List Char} (plain : isPlain cs = true) (some : cs ≠ [])
    (rest : List Char) : (cs ++ rest).head? ≠ Option.some '\'' := by
  cases cs with
  | nil => contradiction
  | cons c cs =>
    have quote : c ≠ '\'' := by
      intro e
      simp [isPlain, e] at plain
    simpa using quote

theorem head?_render {ps : List (Piece String)} (h : Apart ps) (next : startsApart ps = true) :
    (render ps).toList.head? ≠ some '\'' := by
  cases h with
  | nil => simp [render]
  | @code cs ps plain rest =>
    have some : cs ≠ [] := by
      intro e
      simp [startsApart, e] at next
    rw [render_cons, String.toList_append]
    simpa [Piece.render] using head?_append_of_plain plain some (render ps).toList
  | @number n ps rest =>
    rw [render_cons, String.toList_append]
    simpa [Piece.render, Text.ofInt] using
      head?_append_of_plain (isPlain_intDigits n) (Text.intDigits_ne_nil n) (render ps).toList
  | string => simp [startsApart] at next
  | text => simp [startsApart] at next
  | symbol => simp [render_cons, Piece.render, symbolLiteral]

/-- The source of a template that is apart is read piece by piece. -/
theorem tokens_render {ps : List (Piece String)} (h : Apart ps) :
    tokens? (render ps) = some (ps.flatMap Piece.tokens) := by
  unfold tokens?
  induction h with
  | nil => simp [render, tokensFrom]
  | @code cs ps plain rest ih =>
    rw [render_cons, String.toList_append, Piece.render, String.toList_ofList,
      tokensFrom_plain plain, ih]
    simp [Piece.tokens]
  | @number n ps rest ih =>
    rw [render_cons, String.toList_append, Piece.render, Text.ofInt, String.toList_ofList,
      tokensFrom_plain (isPlain_intDigits n), ih]
    simp [Piece.tokens]
  | string content next rest ih =>
    rw [render_cons, String.toList_append, Piece.render,
      tokensFrom_stringLiteral content (head?_render rest next), ih]
    rfl
  | text content next rest ih =>
    rw [render_cons, String.toList_append, Piece.render,
      tokensFrom_stringLiteral content (head?_render rest next), ih]
    rfl
  | symbol content next rest ih =>
    rw [render_cons, String.toList_append, Piece.render,
      tokensFrom_symbolLiteral content (head?_render rest next), ih]
    rfl

end ImageBrowser.Smalltalk
