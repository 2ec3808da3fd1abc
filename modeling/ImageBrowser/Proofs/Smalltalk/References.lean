import ImageBrowser.Proofs.Smalltalk.Frames

/-!
Which class a source is about. A source looks a class up in the symbol list of the user, either by
its name through all dictionaries or in the dictionary at some place; what is read here is its first
look-up. A library says which class each of the two finds.
-/

namespace ImageBrowser.Smalltalk

open Text (decimalDigit? intDigits natDigits natOfDigits signed)

inductive ClassReference
  | named (name : String)
  | within (index : Int) (name : String)
  deriving DecidableEq, Repr

/-! Reading look-ups -/

def codeTokens (s : String) : List Token := s.toList.map .code

def behind? (front tokens : List Token) : Option (List Token) :=
  if front <+: tokens then some (tokens.drop front.length) else none

def symbolBehind? (front : String) (tokens : List Token) : Option String :=
  match behind? (codeTokens front) tokens with
  | some (.symbol name :: _) => some (String.ofList name)
  | _ => none

def Token.char? : Token → Option Char
  | code c => some c
  | _ => none

def intIn (cs : List Char) : Int :=
  let (negative, digits) := signed cs
  let n : Int := natOfDigits (digits.filterMap decimalDigit?)
  if negative then -n else n

def placeBehind? (tokens : List Token) : Option ClassReference := do
  let rest ← behind? (codeTokens " at: ") tokens
  let number := rest.takeWhile fun t => t ≠ .code ')'
  let name ← symbolBehind? ") at: " (rest.dropWhile fun t => t ≠ .code ')')
  return .within (intIn (number.filterMap Token.char?)) name

def lookUp? (tokens : List Token) : Option ClassReference := do
  let rest ← behind? (codeTokens symbolList) tokens
  ((symbolBehind? " objectNamed: " rest).map .named).or (placeBehind? rest)

def referenceFrom : List Token → Option ClassReference
  | [] => none
  | t :: ts => (lookUp? (t :: ts)).or (referenceFrom ts)

def reference? (source : String) : Option ClassReference := (tokens? source).bind referenceFrom

theorem behind?_append (front rest : List Token) : behind? front (front ++ rest) = some rest := by
  rw [behind?, if_pos (List.prefix_append front rest), List.drop_left]

theorem symbolBehind?_append (front name : String) (rest : List Token) :
    symbolBehind? front (codeTokens front ++ .symbol name.toList :: rest) = some name := by
  rw [symbolBehind?, behind?_append]
  simp

theorem intIn_intDigits (n : Int) : intIn (intDigits n) = n := by
  unfold intIn
  rw [Text.signed_intDigits]
  simp only [Text.natOfDigits_natDigits]
  split
  · next negative =>
    have := of_decide_eq_true negative
    omega
  · next natural =>
    have := of_decide_eq_false (Bool.not_eq_true _ ▸ natural)
    omega

theorem digitChar_ne {d : Nat} (small : d < 10) :
    Text.digitChar d ≠ 'S' ∧ Text.digitChar d ≠ ')' := by
  revert d
  decide

theorem char_ne_of_mem_intDigits {n : Int} {c : Char} (mem : c ∈ intDigits n) :
    c ≠ 'S' ∧ c ≠ ')' := by
  have digit {m : Nat} (mem : c ∈ natDigits m) : c ≠ 'S' ∧ c ≠ ')' := by
    obtain ⟨d, small, rfl⟩ := Text.mem_natDigits mem
    exact digitChar_ne small
  unfold intDigits at mem
  split at mem
  · rcases List.mem_cons.mp mem with rfl | later
    · decide
    · exact digit later
  · exact digit mem

theorem codeTokens_symbolList :
    codeTokens symbolList = .code 'S' :: codeTokens "ystem myUserProfile symbolList" := by
  decide

theorem referenceFrom_append {tokens : List Token} (apart : .code 'S' ∉ tokens)
    (rest : List Token) : referenceFrom (tokens ++ rest) = referenceFrom rest := by
  induction tokens with
  | nil => rfl
  | cons t ts ih =>
    obtain ⟨other, apart⟩ := not_or.mp (mt List.mem_cons.mpr apart)
    have elsewhere : ¬ codeTokens symbolList <+: t :: (ts ++ rest) := by
      rw [codeTokens_symbolList, List.cons_prefix_cons]
      exact fun isPrefix => other isPrefix.1
    rw [List.cons_append, referenceFrom, lookUp?, behind?, if_neg elsewhere]
    exact ih apart

theorem referenceFrom_of_lookUp {tokens : List Token} {r : ClassReference}
    (found : lookUp? tokens = some r) : referenceFrom tokens = some r := by
  cases tokens with
  | nil => contradiction
  | cons t ts => rw [referenceFrom, found, Option.some_or]

theorem lookUp?_named (name : String) (rest : List Token) :
    lookUp? (codeTokens symbolList ++
      (codeTokens " objectNamed: " ++ .symbol name.toList :: rest)) = some (.named name) := by
  simp only [lookUp?, behind?_append, Option.bind_eq_bind, Option.bind_some, symbolBehind?_append,
    Option.map_some, Option.some_or]

theorem lookUp?_within (index : Int) (name : String) (rest : List Token) :
    lookUp? (codeTokens symbolList ++ (codeTokens " at: " ++ ((intDigits index).map .code ++
      (codeTokens ") at: " ++ .symbol name.toList :: rest)))) =
        some (.within index name) := by
  have digits : ∀ t ∈ (intDigits index).map Token.code, decide (t ≠ Token.code ')') = true := by
    intro t mem
    obtain ⟨c, among, rfl⟩ := List.mem_map.mp mem
    simpa using (char_ne_of_mem_intDigits among).2
  have place : placeBehind? (codeTokens " at: " ++ ((intDigits index).map .code ++
      (codeTokens ") at: " ++ .symbol name.toList :: rest))) = some (.within index name) := by
    have closed : codeTokens ") at: " = .code ')' :: codeTokens " at: " := by decide
    rw [placeBehind?, behind?_append]
    show (do
      let name ← symbolBehind? ") at: " (List.dropWhile _ _)
      some (ClassReference.within (intIn ((List.takeWhile _ _).filterMap Token.char?)) name)) = _
    rw [List.takeWhile_append_of_pos digits, List.dropWhile_append_of_pos digits, closed,
      List.cons_append, List.takeWhile_cons_of_neg (by simp), List.dropWhile_cons_of_neg (by simp),
      ← List.cons_append, ← closed, symbolBehind?_append, List.append_nil, List.filterMap_map]
    have read : Token.char? ∘ Token.code = some := rfl
    rw [read, List.filterMap_some, intIn_intDigits]
    rfl
  have unnamed (tokens : List Token) :
      symbolBehind? " objectNamed: " (codeTokens " at: " ++ tokens) = none := by
    have elsewhere : ¬ codeTokens " objectNamed: " <+: codeTokens " at: " ++ tokens := by
      simp [codeTokens]
    rw [symbolBehind?, behind?, if_neg elsewhere]
  simp only [lookUp?, behind?_append, Option.bind_eq_bind, Option.bind_some, unnamed, place,
    Option.map_none, Option.none_or]

/-! The sources about a class -/

namespace Snippet

theorem reference?_source {s : Snippet} (template : s.kind ≠ .compileClassDefinition) :
    reference? s.source = referenceFrom (s.template.flatMap Piece.tokens) := by
  have apart := (apart_frame template).map (s.texts.getD · "")
  rw [← template_eq_map_frame] at apart
  rw [reference?, source, tokens_render apart]
  rfl

theorem referenceFrom_namedObject {before : List Token} (apart : .code 'S' ∉ before)
    (name : String) (rest : List (Piece String)) :
    referenceFrom (before ++ (namedObject name ++ rest).flatMap Piece.tokens) =
      some (.named name) := by
  have opened : .code 'S' ∉ before ++ codeTokens "(" :=
    List.not_mem_append apart (by decide)
  have found := referenceFrom_of_lookUp (lookUp?_named name
    ((Piece.code ")" :: rest).flatMap Piece.tokens))
  rw [← referenceFrom_append opened] at found
  simpa [namedObject, Piece.tokens, codeTokens, List.append_assoc] using found

theorem reference?_classDefinition (name : String) :
    reference? (classDefinition name).source = some (.named name) := by
  rw [reference?_source (by simp [kind])]
  exact referenceFrom_namedObject List.not_mem_nil name [.code " definition"]

theorem reference?_classComment (name : String) :
    reference? (classComment name).source = some (.named name) := by
  rw [reference?_source (by simp [kind])]
  exact referenceFrom_namedObject List.not_mem_nil name [.code " comment"]

theorem reference?_methodSource (name : String) (isMeta : Bool) (selector : String)
    (environment : Option Int) :
    reference? (methodSource name isMeta selector environment).source = some (.named name) := by
  rw [reference?_source (by simp [kind])]
  have apart : Token.code 'S' ∉ codeTokens "(" := by decide
  cases isMeta with
  | false => exact referenceFrom_namedObject apart name _
  | true => exact referenceFrom_namedObject apart name (.code " class" :: _)

theorem reference?_classEnvironments (index : Int) (name : String) (limit : Int) :
    reference? (classEnvironments index name limit).source = some (.within index name) := by
  have laidOut : ∃ rest, (classEnvironments index name limit).template =
      .code "| class envs stream |" :: .code "\n" :: .code "envs := " :: .number limit ::
        .code "." :: .code "\n" :: .code "class := (" :: .code symbolList :: .code " at: " ::
        .number index :: .code ") at: " :: .symbol name :: rest := ⟨_, rfl⟩
  obtain ⟨rest, laidOut⟩ := laidOut
  have digits : Token.code 'S' ∉ (intDigits limit).map Token.code := by
    intro mem
    obtain ⟨c, among, same⟩ := List.mem_map.mp mem
    exact (char_ne_of_mem_intDigits among).1 (Token.code.inj same)
  have apart : Token.code 'S' ∉ codeTokens "| class envs stream |\nenvs := " ++
      ((intDigits limit).map .code ++ codeTokens ".\nclass := (") :=
    List.not_mem_append (by decide) (List.not_mem_append digits (by decide))
  have found := referenceFrom_of_lookUp (lookUp?_within index name (rest.flatMap Piece.tokens))
  rw [← referenceFrom_append apart] at found
  rw [reference?_source (by simp [kind]), laidOut]
  simpa [Piece.tokens, codeTokens] using found

theorem limit_eq_of_source_eq {index limit limit' : Int} {name : String}
    (same : (classEnvironments index name limit).source =
      (classEnvironments index name limit').source) : limit = limit' := by
  have laidOut : ∃ rest, ∀ limit, (classEnvironments index name limit).template =
      [.code "| class envs stream |", .code "\n", .code "envs := "] ++
        ([.number limit] ++ rest) := ⟨_, fun _ => rfl⟩
  obtain ⟨rest, laidOut⟩ := laidOut
  rw [source, source, laidOut, laidOut] at same
  simp only [render_append, String.append_right_inj, String.append_left_inj] at same
  have digits : intDigits limit = intDigits limit' := by
    simpa [render, Piece.render, Text.ofInt, String.ofList_inj] using same
  rw [← intIn_intDigits limit, digits, intIn_intDigits]

end Snippet

end ImageBrowser.Smalltalk
